import Dipper.Listener.Drain

/-! The sweeps of the chain listener: the events of the agreements not yet announced, and the
cancels that a crash left undone; and the poll that runs them after each drain. -/

namespace Dipper

namespace Listener

def sweepBatchSize : Nat := 1000

def sweepPolls : Nat := 60

def slowPollInterval : Nat := 300

inductive SweepHealth : Type
  | sent
  | failed
  | idle
  deriving DecidableEq, Repr

def SweepHealth.merge : SweepHealth → SweepHealth → SweepHealth
  | .failed, _ | _, .failed => .failed
  | .sent, _ | _, .sent => .sent
  | .idle, .idle => .idle

/-- Emit the event of each row and stamp the row once the broker has taken it; the first event the
broker does not take ends the sweep. -/
def emitEach (event : IndexingAgreementId → AgreementRow → Act Event) (stamp : RowUpdate) :
    List (IndexingAgreementId × AgreementRow) → Act SweepHealth
  | [] => return .sent
  | (id, row) :: rest => do
    match ← emit (← event id row) with
    | .error _ => return .failed
    | .ok _ =>
      -- An event sent but not stamped is sent again by the next sweep.
      let _ ← Registry.update id stamp
      emitEach event stamp rest

/-- A sweep of the events of one kind: `pending` lists the rows that await them. -/
def sweepEvents (pending : AgreementQuery) (event : IndexingAgreementId → AgreementRow → Act Event)
    (stamp : RowUpdate) : Act SweepHealth := do
  match ← Registry.select pending with
  | .error _ => return .idle
  | .ok [] => return .idle
  | .ok rows => emitEach event stamp rows

def acceptedEvent (id : IndexingAgreementId) (row : AgreementRow) : Event :=
  .accepted id row.indexerId (asU64 (row.acceptedAt.getD 0)) (row.acceptedTx.getD "")
    row.terms.endsAt row.terms.payer

def sweepPendingAcceptedEvents : Act SweepHealth :=
  sweepEvents (.pendingAcceptedEmission sweepBatchSize)
    (fun id row => return acceptedEvent id row) .markAcceptedEventEmitted

/-- The agreements accepted on the deployment, `-1` when they cannot be counted. -/
def remainingAcceptedIndexingAgreements (deployment : DeploymentId) : Act Int := do
  match ← Registry.select (.acceptedOfDeployment deployment) with
  | .ok rows => return (min rows.length 2147483647 : Nat)
  | .error _ => return -1

/-- An agreement's end as its event has it: the columns that are null fall back to the time of the
row's last change, the manager and the empty transaction. -/
def terminatedEvent (config : Config) (id : IndexingAgreementId) (row : AgreementRow)
    (remaining : Int) : Event :=
  .terminated id row.indexerId ((row.canceledAt.map asU64).getD row.updatedAt)
    (row.canceledBy.getD config.recurringAgreementManager.text) (row.canceledTx.getD "") remaining

def sweepPendingTerminatedEvents (config : Config) : Act SweepHealth :=
  sweepEvents (.pendingTerminatedEmission sweepBatchSize)
    (fun id row => do
      return terminatedEvent config id row
        (← remainingAcceptedIndexingAgreements row.deploymentId))
    .markTerminatedEventEmitted

/-- Rows from before proposals were timed say 0, and take the time they were made. -/
def requestExpiredEvent (id : IndexingAgreementId) (row : AgreementRow) : Event :=
  .requestExpired id row.indexerId
    (if row.terms.proposedAt = 0 then row.createdAt else row.terms.proposedAt) row.terms.deadline

def sweepPendingExpiredEvents : Act SweepHealth :=
  sweepEvents (.pendingExpiredEmission sweepBatchSize)
    (fun id row => return requestExpiredEvent id row) .markExpiredEventEmitted

/-- The three event sweeps in turn, until one finds the broker down. -/
def runEventSweeps (config : Config) : Act SweepHealth := do
  let accepted ← sweepPendingAcceptedEvents
  if accepted = .failed then return accepted
  let health := accepted.merge (← sweepPendingTerminatedEvents config)
  if health = .failed then return health
  return health.merge (← sweepPendingExpiredEvents)

/-- Execute the pending cancellations of accepted agreements that a crash left behind. -/
def sweepExecutablePendingCancellations (config : Config) : Act Unit := do
  match ← Registry.listExecutablePendingCancellations sweepBatchSize with
  | .error _ => return ()
  | .ok targets =>
    Concurrent.Prog.forEach targets fun new => do
      let _ ← executePendingCancellations config new
      return ()

/-- Cancel the agreements of cancelled requests that may still be live. -/
def sweepOrphanCanceledAgreements (config : Config) : Act Unit := do
  match ← Registry.listAgreements (.pendingChainCancel sweepBatchSize) with
  | .error _ => return ()
  | .ok orphans =>
    Concurrent.Prog.forEach orphans fun agreement => do
      let _ ← startCancel config agreement .notWanted
      return ()

def isPaused (memory : ListenerMemory) (now : Nat) : Bool :=
  memory.brokerDownSince.any fun since => decide (now - since < memory.brokerBackoff)

def recordHealth (config : Config) (memory : ListenerMemory) (health : SweepHealth) (now : Nat) :
    ListenerMemory :=
  match health with
  | .sent => { memory with brokerDownSince := none, brokerBackoff := config.pollIntervalSecs }
  | .failed =>
    { memory with
      brokerDownSince := some now
      brokerBackoff :=
        if memory.brokerDownSince.isSome then min (2 * memory.brokerBackoff) slowPollInterval
        else config.pollIntervalSecs }
  | .idle => memory

def announce (config : Config) (memory : ListenerMemory) : Act ListenerMemory := do
  let now ← nowSecs
  if isPaused memory now then return memory
  return recordHealth config memory (← runEventSweeps config) now

def sweepCancellations (config : Config) (memory : ListenerMemory) : Act ListenerMemory := do
  let polls := memory.pollsSinceSweep + 1
  if polls < sweepPolls then return { memory with pollsSinceSweep := polls }
  sweepExecutablePendingCancellations config
  sweepOrphanCanceledAgreements config
  return { memory with pollsSinceSweep := 0 }

def poll (config : Config) (memory : ListenerMemory) : Act Unit := do
  let (memory, drained) ← drainOnce config memory
  match drained with
  | .error _ => remember memory
  | .ok outcome =>
    if outcome.stopped then
      remember memory
      return ()
    let memory ← announce config memory
    let memory ← sweepCancellations config memory
    remember memory

end Listener

end Dipper
