import Dipper.CancelDispatch

/-! Reconciliation of one page of snapshots: what each snapshot asks of its row, the chain checks
and accepts recorded on the way, and the cancels of replaced agreements once a replacement has
been accepted. -/

namespace Dipper

namespace Listener

/-- Queue the chain check of an agreement dipper ended that the subgraph shows accepted, once per
change. -/
def queueLiveCheck (snapshot : AgreementStateSnapshot)
    (queued : List (IndexingAgreementId × Nat)) :
    Act (Except Unit (List (IndexingAgreementId × Nat))) := do
  let change := (snapshot.agreementId, snapshot.lastStateChangeBlock)
  if change ∈ queued then return .ok queued
  let accept := if snapshot.acceptedAt ≠ 0 then
      some (ChainAccept.mk snapshot.acceptedAt snapshot.acceptedTx)
    else none
  match ← push (.cancelRejectedAgreementOnChain snapshot.agreementId accept) with
  | .ok _ => return .ok (change :: queued)
  | .error _ => return .error ()

/-- Forget the changes before `block`, which the drain no longer reads. -/
def forgetBefore (block : Nat) (queued : List (IndexingAgreementId × Nat)) :
    List (IndexingAgreementId × Nat) :=
  queued.filter fun change => block ≤ change.2

/-- Dipper rejected or cancelled an agreement the subgraph shows accepted and not ended. -/
def endedButAccepted (snapshot : AgreementStateSnapshot) (agreement : IndexingAgreement) : Bool :=
  (agreement.status = .rejected || agreement.status = .canceledByRequester) &&
    snapshot.state.reachedAccepted && !snapshot.state.isCanceled

/-- Have the chain of such an agreement checked. -/
def checkEndedButAccepted (snapshot : AgreementStateSnapshot) (agreement : IndexingAgreement)
    (queued : List (IndexingAgreementId × Nat)) :
    Act (Except Unit (List (IndexingAgreementId × Nat))) :=
  if endedButAccepted snapshot agreement then queueLiveCheck snapshot queued
  else return .ok queued

/-- The accept of an agreement dipper is cancelling, which stays `Cancelling`. -/
def recordAcceptOfCancelling (snapshot : AgreementStateSnapshot) (agreement : IndexingAgreement) :
    Act (Except Unit Unit) := do
  if agreement.status ≠ .cancelling || !snapshot.state.reachedAccepted ||
      snapshot.acceptedAt = 0 then
    return .ok ()
  match ← Registry.update agreement.id
      (.recordAcceptedAudit snapshot.acceptedAt snapshot.acceptedTx) with
  | .ok _ => return .ok ()
  | .error _ => return .error ()

/-- The accept and end of an agreement dipper already ended that went live on-chain. -/
def recordAcceptAndCancelFromChain (snapshot : AgreementStateSnapshot)
    (agreement : IndexingAgreement) : Act (Except Unit Unit) := do
  if snapshot.acceptedAt = 0 then return .ok ()
  match ← Registry.update agreement.id
      (.recordAcceptAndCancelAudit snapshot.acceptedAt snapshot.acceptedTx snapshot.canceledAt
        (Address.text snapshot.canceledBy) (some snapshot.canceledTx)) with
  | .ok _ => return .ok ()
  | .error _ => return .error ()

/-- Whether the snapshot's accept moves the row.  A withdrawn offer, which reads as cancelled with
no accept time, never went live. -/
def appliesAccept (snapshot : AgreementStateSnapshot) (agreement : IndexingAgreement) : Bool :=
  let withdrawnOffer := snapshot.state.isCanceled && snapshot.acceptedAt == 0
  (agreement.status = .created || agreement.status = .expired) &&
    snapshot.state.reachedAccepted && !withdrawnOffer

/-- Which cancel the snapshot brings to the row, unless one has ended it already. -/
def cancelKind (snapshot : AgreementStateSnapshot) (agreement : IndexingAgreement) :
    Option CancelKind :=
  if agreement.status.isTerminalCancel then none
  else match snapshot.state with
    | .canceledByPayer => some .byRequester
    | .canceledByServiceProvider => some .byIndexer
    | .notAccepted | .accepted => none

/-- The decision for a snapshot, with the agreement as it was read. -/
structure PreparedReconciliation where
  item : ReconciliationItem
  agreement : IndexingAgreement
  deriving DecidableEq, Repr

def reconciliationItem (snapshot : AgreementStateSnapshot) (agreement : IndexingAgreement) :
    ReconciliationItem :=
  let applyAccept := appliesAccept snapshot agreement
  let cancel := cancelKind snapshot agreement
  { agreementId := agreement.id
    applyAccept := applyAccept
    cancel := cancel
    audit :=
      { acceptedAt := if applyAccept then some snapshot.acceptedAt else none
        acceptedTx := if applyAccept then some snapshot.acceptedTx else none
        canceledAt := cancel.map fun _ => snapshot.canceledAt
        canceledBy := cancel.map fun _ => Address.text snapshot.canceledBy
        canceledTx := cancel.map fun _ => snapshot.canceledTx } }

/-- The decision itself, after the side effects: the item to apply, or the record of an end dipper
had already made. -/
def decideReconciliation (snapshot : AgreementStateSnapshot) (agreement : IndexingAgreement) :
    Act (Except Unit (Option PreparedReconciliation)) := do
  if appliesAccept snapshot agreement || (cancelKind snapshot agreement).isSome then
    return .ok (some ⟨reconciliationItem snapshot agreement, agreement⟩)
  if agreement.status.isTerminalCancel && snapshot.state.isCanceled then
    match ← recordAcceptAndCancelFromChain snapshot agreement with
    | .ok _ => return .ok none
    | .error _ => return .error ()
  return .ok none

/-- Compute the decision for one snapshot, with the changes chain checks were queued for after
it. -/
def prepareReconciliation (snapshot : AgreementStateSnapshot)
    (agreement : Option IndexingAgreement) (queued : List (IndexingAgreementId × Nat)) :
    Act (Except Unit (Option PreparedReconciliation) × List (IndexingAgreementId × Nat)) :=
  match agreement with
  | none => return (.ok none, queued)
  | some agreement => do
    match ← checkEndedButAccepted snapshot agreement queued with
    | .error _ => return (.error (), queued)
    | .ok queued =>
      match ← recordAcceptOfCancelling snapshot agreement with
      | .error _ => return (.error (), queued)
      | .ok _ => return (← decideReconciliation snapshot agreement, queued)

/-- Whether a replaced agreement's pending cancellation is done with: marked, already ended, or
gone. -/
def noteReplacedCancel : Except RegistryError CancelStarted → Bool
  | .ok _ => true
  | .error .noRecordsUpdated => true
  | .error .backend => false

/-- Start cancelling an agreement its accepted replacement supersedes. -/
def startReplacedCancel (config : Config) (old : IndexingAgreementId) :
    Act (Except RegistryError Bool) := do
  match ← Registry.getIndexingAgreementById old with
  | .error err => return .error err
  | .ok none => return .ok true
  | .ok (some oldAgreement) =>
    -- An expired one is read first, so one that really expired keeps its status.
    if oldAgreement.status = .expired then
      match ← ChainClient.agreementOnChain oldAgreement.id with
      | .error _ => return .ok false
      | .ok .live =>
        return .ok (noteReplacedCancel (← startCancelSeenLive config oldAgreement .notWanted))
      | .ok _ => return .ok true
    return .ok (noteReplacedCancel (← startCancel config oldAgreement .notWanted))

/-- The olds one by one; whether all of them are done with. -/
def cancelReplaced (config : Config) (new : IndexingAgreementId) :
    List IndexingAgreementId → Act (Except RegistryError Bool)
  | [] => return .ok true
  | old :: rest => do
    match ← startReplacedCancel config old with
    | .error err => return .error err
    | .ok true =>
      match ← Registry.deletePendingCancellation new old with
      | .error err => return .error err
      | .ok _ => cancelReplaced config new rest
    | .ok false =>
      match ← cancelReplaced config new rest with
      | .error err => return .error err
      | .ok _ => return .ok false

/-- Execute the pending cancellations linked to a newly accepted agreement; an error when one of
them failed and is retained for retry. -/
def executePendingCancellations (config : Config) (new : IndexingAgreementId) :
    Act (Except Unit Unit) := do
  match ← Registry.getPendingCancellationsByNewAgreement new with
  | .error _ => return .error ()
  | .ok olds =>
    match ← cancelReplaced config new olds with
    | .ok true => return .ok ()
    | _ => return .error ()

def finalizeReconciliation (config : Config) (prep : PreparedReconciliation)
    (outcome : ReconciliationOutcome) : Act (Except Unit Unit) := do
  if outcome.didAccept then executePendingCancellations config prep.agreement.id
  else return .ok ()

end Listener

end Dipper
