import Dipper.CancelRetry

/-! The services that end agreements on their own: the expiration scan, which marks offers past
their deadline, and the liveness check, which ends agreements whose indexer stopped serving them,
with the replacements the cancel retry queues once they have ended. -/

namespace Dipper

namespace Expiration

/-- Mark one agreement expired, drop the pending cancellations of what it was to replace, and
queue a reassessment.  Failures are logged and leave the rest to later scans. -/
def expire (agreement : IndexingAgreement) : Act Unit := do
  match ← Registry.update agreement.id .markAsExpired with
  | .error _ => return ()
  | .ok _ =>
    let _ ← Registry.deletePendingCancellationsByNewAgreement agreement.id
    match ← Registry.getIndexingRequestById agreement.indexingRequestId with
    | .ok (some _) =>
      let _ ← push (.reassessIndexingRequest agreement.indexingRequestId)
      return ()
    | _ => return ()

def expireEach : List IndexingAgreement → Act Unit
  | [] => return ()
  | agreement :: rest => do
    if ← stopRequested then return ()
    expire agreement
    expireEach rest

/-- One scan.  The chain's time is the one the listener persisted, held back by the grace. -/
def scan (config : Config) : Act Unit := do
  match ← Registry.getChainListenerState with
  | .ok (some (_, some chainTs)) =>
    let expiryThreshold := chainTs - config.expirationGraceSecs
    match ← Registry.listAgreements
        (.expiredCreated config.expirationBatchSize expiryThreshold) with
    | .error _ => return ()
    | .ok expired => expireEach expired
  | _ => return ()

end Expiration

namespace Liveness

/-- Queue a reassessment of the request; true once nothing is left to do. -/
def queueReplacement (agreement : IndexingAgreement) : Act Bool := do
  match ← Registry.getIndexingRequestById agreement.indexingRequestId with
  | .error _ => return false
  | .ok none => return true
  | .ok (some request) =>
    if request.status ≠ .opened then return true
    match ← push (.reassessIndexingRequest agreement.indexingRequestId) with
    | .ok _ => return true
    | .error _ => return false

def replaceAbandoned (agreement : IndexingAgreement) : Act Unit := do
  if ← queueReplacement agreement then
    let _ ← Registry.update agreement.id .markReplacementQueued
    return ()

/-- Note that the chain shows a stale agreement still cancelling has ended. -/
def noteSeenEnded (agreement : IndexingAgreement) : Act Bool := do
  match ← Registry.update agreement.id (.recordCancelCheck 0 (some true)) with
  | .ok _ => return true
  | .error .noRecordsUpdated => return true
  | .error .backend => return false

/-- End a stale agreement and queue its replacement once it can't be paid.  Without a cancel that
can ever be sent it stays as it is. -/
def cancelAndReassess (config : Config) (agreement : IndexingAgreement) : Act Unit := do
  if (cancelHash agreement).isNone then return ()
  match ← markCancelling agreement .abandoned with
  | .error _ => return ()
  | .ok _ =>
    let started ← sendMarkedCancel config agreement .abandoned
    let _ ← Registry.deletePendingCancellationsByNewAgreement agreement.id
    match started with
    | .ended => replaceAbandoned agreement
    | .mayBeLive => return ()
    | .notLive => if ← noteSeenEnded agreement then replaceAbandoned agreement

def checkEach (config : Config) : List IndexingAgreement → Act Unit
  | [] => return ()
  | agreement :: rest => do
    if ← isStale agreement.id then cancelAndReassess config agreement
    checkEach config rest

def check (config : Config) : Act Unit := do
  match ← Registry.listAgreements .acceptedOnChain with
  | .error _ => return ()
  | .ok accepted => checkEach config accepted

/-- Queue the replacements of agreements that have ended since. -/
def replaceEndedAbandoned : Act Unit := do
  match ← Registry.listAgreements (.awaitingReplacement cancelRetryBatchSize) with
  | .error _ => return ()
  | .ok ended => Concurrent.Prog.forEach ended replaceAbandoned

end Liveness

end Dipper
