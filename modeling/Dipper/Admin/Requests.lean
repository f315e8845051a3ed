import Dipper.Registry.Database

/-! The admin RPC: an operator sets how many indexers a deployment is to have, in a message they
sign.  The call changes the request of its key in one transaction and then queues a reassessment
of it. -/

namespace Dipper.Admin

/-- The payload an operator signs.  A `usize` has 64 bits on every target dipper is built for. -/
structure SetIndexingTargetCandidates where
  deploymentId : DeploymentId
  chainId : UInt64
  /-- The server's default when omitted. -/
  numCandidates : Option UInt64
  deriving DecidableEq, Repr

/-- The Solidity struct that is hashed for the signature. -/
structure SetIndexingTargetCandidatesSol where
  deploymentId : DeploymentId
  chainId : UInt64
  numCandidates : UInt64
  deriving DecidableEq, Repr

def SetIndexingTargetCandidates.toSolStruct (m : SetIndexingTargetCandidates) :
    SetIndexingTargetCandidatesSol where
  deploymentId := m.deploymentId
  chainId := m.chainId
  numCandidates := m.numCandidates.getD 0

structure SignedMessage (Signature : Type) where
  message : SetIndexingTargetCandidates
  signature : Signature

/-- What the server is set up with: the hash of the Solidity struct, the recovery of a signer from
a hash and a signature under the server's domain, and the operators it takes messages of. -/
structure Ctx (Hash Signature : Type) where
  structHash : SetIndexingTargetCandidatesSol → Hash
  recover : Hash → Signature → Option Address
  signerChainId : Nat
  gatewayOperatorAllowlist : List Address
  maxCandidates : UInt64

section Registry

/-- A row of `dipper_reg_indexing_requests` with the operator it belongs to. -/
structure RequestRow extends IndexingRequest where
  requestedBy : Address
  deriving DecidableEq, Repr

structure RequestKey where
  requestedBy : Address
  deploymentId : DeploymentId
  deploymentChainId : Nat
  deriving DecidableEq, Repr

def RequestRow.key (row : RequestRow) : RequestKey where
  requestedBy := row.requestedBy
  deploymentId := row.deploymentId
  deploymentChainId := row.deploymentChainId

abbrev RequestRows : Type := AList fun _ : IndexingRequestId => RequestRow

/-- The table of requests.  A partial unique index keeps one open row for each key. -/
structure RequestTable where
  rows : RequestRows
  oneOpen : ∀ {id id' row row'}, rows.lookup id = some row → rows.lookup id' = some row' →
    row.status = .opened → row'.status = .opened → row.key = row'.key → id = id'

namespace RequestTable

def empty : RequestTable where
  rows := ∅
  oneOpen hRow := by cases hRow

def findOpen (t : RequestTable) (key : RequestKey) : Option (Σ _ : IndexingRequestId, RequestRow) :=
  t.rows.entries.find? fun e => e.2.status = .opened && e.2.key = key

variable {t : RequestTable} {key : RequestKey} {id : IndexingRequestId} {row : RequestRow}

theorem of_findOpen (h : t.findOpen key = some ⟨id, row⟩) :
    t.rows.lookup id = some row ∧ row.status = .opened ∧ row.key = key := by
  have hHit := List.find?_some h
  simp only [Bool.and_eq_true, decide_eq_true_eq] at hHit
  exact ⟨AList.mem_lookup_iff.mpr (List.mem_of_find?_eq_some h), hHit⟩

theorem of_findOpen_none (h : t.findOpen key = none) (hRow : t.rows.lookup id = some row)
    (hOpen : row.status = .opened) : row.key ≠ key := by
  intro hKey
  have hMiss := List.find?_eq_none.mp h ⟨id, row⟩ (AList.mem_lookup_iff.mp hRow)
  simp [hOpen, hKey] at hMiss

/-- Insert a row under a key that has no open one. -/
def add (t : RequestTable) (id : IndexingRequestId) (row : RequestRow)
    (h : t.findOpen row.key = none) : RequestTable where
  rows := t.rows.insert id row
  oneOpen {id1 id2 row1 row2} h1 h2 hOpen1 hOpen2 hKey := by
    rw [lookup_insert_eq_ite] at h1 h2
    split at h1 <;> split at h2
    · rename_i hId1 hId2
      rw [hId1, hId2]
    · cases h1
      exact absurd hKey.symm (of_findOpen_none h h2 hOpen2)
    · cases h2
      exact absurd hKey (of_findOpen_none h h1 hOpen1)
    · exact t.oneOpen h1 h2 hOpen1 hOpen2 hKey

/-- Update an open row, under the same key. -/
def set (t : RequestTable) (id : IndexingRequestId) (row row' : RequestRow)
    (hRow : t.rows.lookup id = some row) (hOpen : row.status = .opened)
    (hKey : row'.key = row.key) : RequestTable where
  rows := t.rows.insert id row'
  oneOpen {id1 id2 row1 row2} h1 h2 hOpen1 hOpen2 hSame := by
    rw [lookup_insert_eq_ite] at h1 h2
    split at h1 <;> split at h2
    · rename_i hId1 hId2
      rw [hId1, hId2]
    · rename_i hId1 _
      cases h1
      rw [hId1]
      exact t.oneOpen hRow h2 hOpen hOpen2 (hKey.symm.trans hSame)
    · rename_i _ hId2
      cases h2
      rw [hId2]
      exact t.oneOpen h1 hRow hOpen1 hOpen (hSame.trans hKey)
    · exact t.oneOpen h1 h2 hOpen1 hOpen2 hSame

end RequestTable

inductive SetTargetOutcome : Type
  | inserted (id : IndexingRequestId)
  | updated (id : IndexingRequestId) (newNumCandidates : Nat)
  | noOp (id : IndexingRequestId)
  | canceled (id : IndexingRequestId)
  | noOpAlreadyEmpty
  deriving DecidableEq, Repr

/-- The transaction of a call, with the id a new row gets; an id that is taken fails the insert. -/
def RequestTable.setIndexingTargetCandidates (t : RequestTable) (key : RequestKey)
    (numCandidates : Nat) (newId : IndexingRequestId) : Option (SetTargetOutcome × RequestTable) :=
  match h : t.findOpen key with
  | none =>
    if numCandidates = 0 then some (.noOpAlreadyEmpty, t)
    else if (t.rows.lookup newId).isSome then none
    else
      let row : RequestRow :=
        { status := .opened
          deploymentId := key.deploymentId
          deploymentChainId := key.deploymentChainId
          numCandidates := numCandidates
          requestedBy := key.requestedBy }
      some (.inserted newId, t.add newId row h)
  | some ⟨id, row⟩ =>
    have hRow := of_findOpen h
    if row.numCandidates = numCandidates then some (.noOp id, t)
    else if numCandidates = 0 then
      some (.canceled id, t.set id row { row with status := .canceled } hRow.1 hRow.2.1 rfl)
    else
      some (.updated id numCandidates,
        t.set id row { row with numCandidates := numCandidates } hRow.1 hRow.2.1 rfl)

end Registry

section Handler

structure ReassessIndexingRequest where
  indexingRequestId : IndexingRequestId
  deploymentId : DeploymentId
  deploymentChainId : Nat
  numCandidates : Nat
  deriving DecidableEq, Repr

/-- The event of a request received, on the network of the server's signer. -/
structure RequestReceived where
  deploymentId : DeploymentId
  network : Nat
  agreementsRequested : Nat
  deriving DecidableEq, Repr

/-- History: a committed change of a request's target or its cancellation, and a job queued. -/
inductive Step : Type
  | changed (id : IndexingRequestId)
  | queued (id : IndexingRequestId)
  deriving DecidableEq, Repr

structure State where
  requests : RequestTable
  jobs : List ReassessIndexingRequest
  received : List RequestReceived
  history : List Step

/-- How a call of the registry or the queue comes out: with its answer, without effect, or with
its effect and the answer lost, as when the server stops there. -/
inductive Answer : Type
  | ok
  | fail
  | lost
  deriving DecidableEq, Repr

/-- One call of the RPC, with the id a new request gets and how the calls it makes come out. -/
structure Call (Signature : Type) where
  request : SignedMessage Signature
  newId : IndexingRequestId
  registry : Answer
  queue : Answer

structure ErrorObject where
  code : Nat
  message : String
  deriving DecidableEq, Repr

def maxNumCandidates : Nat := 100

def SetTargetOutcome.changes : SetTargetOutcome → Option IndexingRequestId
  | .inserted id | .updated id _ | .canceled id => some id
  | .noOp _ | .noOpAlreadyEmpty => none

/-- The id the call returns, and the count to reassess the request with if its row changed. -/
def SetTargetOutcome.followUp (numCandidates : Nat) :
    SetTargetOutcome → Option IndexingRequestId × Option Nat
  | .inserted id => (some id, some numCandidates)
  | .updated id newNumCandidates => (some id, some newNumCandidates)
  | .noOp id => (some id, none)
  | .canceled id => (some id, some 0)
  | .noOpAlreadyEmpty => (none, none)

namespace State

def commit (s : State) (outcome : SetTargetOutcome) (t : RequestTable) : State :=
  { s with
    requests := t
    history := s.history ++ (outcome.changes.map Step.changed).toList }

def setTarget (s : State) (key : RequestKey) (numCandidates : Nat) (newId : IndexingRequestId)
    (answer : Answer) : Option SetTargetOutcome × State :=
  match answer, s.requests.setIndexingTargetCandidates key numCandidates newId with
  | .fail, _ | _, none => (none, s)
  | .ok, some (outcome, t) => (some outcome, s.commit outcome t)
  | .lost, some (outcome, t) => (none, s.commit outcome t)

def announce (s : State) (event : RequestReceived) : SetTargetOutcome → State
  | .inserted _ => { s with received := s.received ++ [event] }
  | _ => s

@[simp] theorem requests_announce (s : State) (event : RequestReceived)
    (outcome : SetTargetOutcome) : (s.announce event outcome).requests = s.requests := by
  cases outcome <;> rfl

@[simp] theorem jobs_announce (s : State) (event : RequestReceived) (outcome : SetTargetOutcome) :
    (s.announce event outcome).jobs = s.jobs := by
  cases outcome <;> rfl

@[simp] theorem history_announce (s : State) (event : RequestReceived)
    (outcome : SetTargetOutcome) : (s.announce event outcome).history = s.history := by
  cases outcome <;> rfl

def queued (s : State) (job : ReassessIndexingRequest) : State :=
  { s with
    jobs := s.jobs ++ [job]
    history := s.history ++ [.queued job.indexingRequestId] }

/-- Queue a reassessment; whether the queue said it was. -/
def reassess (s : State) (job : ReassessIndexingRequest) : Answer → Bool × State
  | .ok => (true, s.queued job)
  | .fail => (false, s)
  | .lost => (false, s.queued job)

end State

variable {Hash Signature : Type}

def Ctx.recoverSigner (ctx : Ctx Hash Signature) (req : SignedMessage Signature) :
    Option Address :=
  ctx.recover (ctx.structHash req.message.toSolStruct) req.signature

def Ctx.numCandidates (ctx : Ctx Hash Signature) (m : SetIndexingTargetCandidates) : Nat :=
  (m.numCandidates.getD ctx.maxCandidates).toNat

def followUp (s : State) (job : IndexingRequestId → Nat → ReassessIndexingRequest)
    (numCandidates : Nat) (outcome : SetTargetOutcome) (queue : Answer) :
    Except ErrorObject (Option IndexingRequestId) × State :=
  match outcome.followUp numCandidates with
  | (some id, some count) =>
    match s.reassess (job id count) queue with
    | (true, s) => (.ok (some id), s)
    | (false, s) => (.error ⟨500, "Internal server error"⟩, s)
  | (id, _) => (.ok id, s)

/-- The handler for a signer and a message that have been accepted. -/
def applyTarget (signerChainId : Nat) (s : State) (key : RequestKey) (numCandidates : Nat)
    (newId : IndexingRequestId) (registry queue : Answer) :
    Except ErrorObject (Option IndexingRequestId) × State :=
  match s.setTarget key numCandidates newId registry with
  | (none, s) => (.error ⟨503, "Service unavailable"⟩, s)
  | (some outcome, s) =>
    let s := s.announce ⟨key.deploymentId, signerChainId, numCandidates⟩ outcome
    let job id count := ⟨id, key.deploymentId, key.deploymentChainId, count⟩
    followUp s job numCandidates outcome queue

def setIndexingTargetCandidates (ctx : Ctx Hash Signature) (s : State) (call : Call Signature) :
    Except ErrorObject (Option IndexingRequestId) × State :=
  match ctx.recoverSigner call.request with
  | none => (.error ⟨401, "Unauthorized"⟩, s)
  | some requestedBy =>
    if requestedBy ∉ ctx.gatewayOperatorAllowlist then (.error ⟨403, "Forbidden"⟩, s)
    else
      let m := call.request.message
      let numCandidates := ctx.numCandidates m
      -- The count must fit an `i32` too.
      if numCandidates < 2 ^ 31 ∧ numCandidates ≤ maxNumCandidates then
        applyTarget ctx.signerChainId s ⟨requestedBy, m.deploymentId, m.chainId.toNat⟩
          numCandidates call.newId call.registry call.queue
      else
        (.error ⟨400,
          s!"num_candidates must be at most {maxNumCandidates}, got {numCandidates}"⟩, s)

def runCalls (ctx : Ctx Hash Signature) (s : State) (calls : List (Call Signature)) : State :=
  calls.foldl (fun s call => (setIndexingTargetCandidates ctx s call).2) s

end Handler

end Dipper.Admin
