import Dipper.CancelDispatch

/-! The cancel retry: a sweep that finishes the cancels dipper started.  It re-sends each while the
chain shows it live and marks it ended once it is over. -/

namespace Dipper

def maxCancelAttempts : Nat := 10
def cancelRetryBatchSize : Nat := 50
def settleMinutes : Nat := 8
def sweepBudgetSecs : Nat := 30
def listenerGraceSecs : Nat := 60 * 60

structure CancellingAgreement where
  agreement : IndexingAgreement
  acceptedOnChain : Bool
  endedSeenAt : Option Nat
  abandoned : Bool
  deriving DecidableEq, Repr

def AgreementRow.cancelling (id : IndexingAgreementId) (row : AgreementRow) :
    CancellingAgreement where
  agreement := row.agreement id
  acceptedOnChain := row.acceptedAt.isSome
  endedSeenAt := row.endedSeenAt
  abandoned := row.abandoned

inductive RetryLog : Type
  | confirmed
  | stillCancelling
  | readFailed
  | unconfirmed
  | cancelFailed
  deriving DecidableEq, Repr

/-- How many of an agreement's cancel attempts a failed cancel uses up. -/
def failedAttempts : ChainClientError → Nat
  | .txDropped false => 0
  | .missingTermsVersionHash _ => maxCancelAttempts
  | _ => 1

/-- Record that the agreement was checked and is still cancelling; a failure is only logged. -/
def noteCheck (row : CancellingAgreement) (failure : Option ChainClientError)
    (ended : Option Bool) : Act Unit := do
  let attempts := (failure.map failedAttempts).getD 0
  let _ ← Registry.update row.agreement.id (.recordCancelCheck attempts ended)
  return ()

/-- Mark an agreement the indexer ended, recorded first as ended at the time dipper noticed. -/
def recordEndByIndexer (agreement : IndexingAgreement) : Act Bool := do
  let now ← nowSecs
  match ← Registry.update agreement.id
      (.recordCancelAudit now (Address.text agreement.indexerId) none) with
  | .error _ => return false
  | .ok _ =>
    match ← Registry.applyReconciliation agreement.id false (some .byIndexer) with
    | .ok _ => return true
    | .error _ => return false

/-- Whether an agreement found over can be confirmed: one that was accepted once dipper's own
cancel ended it or the listener has had time to see the end, any other once its deadline has
passed. -/
def canConfirm (row : CancellingAgreement) (txHash : Option TxHash) (pastGrace : Bool)
    (chainNow : Option Nat) : Bool :=
  if row.acceptedOnChain then txHash.isSome || pastGrace
  else chainNow.any fun chainNow => row.agreement.terms.deadline < chainNow

def confirmIfOver (config : Config) (row : CancellingAgreement) (txHash : Option TxHash)
    (byIndexer : Bool) (chainNow : Option Nat) : Act Bool := do
  let now ← nowSecs
  let pastGrace := row.endedSeenAt.any fun seen => seen + listenerGraceSecs < now
  if !canConfirm row txHash pastGrace chainNow then return false
  if byIndexer then
    if !pastGrace then return false
    recordEndByIndexer row.agreement
  else
    let reason := if row.abandoned then CancelReason.abandoned else .notWanted
    confirmCancelled config row.agreement reason txHash

/-- Confirm an agreement found over, or note the check that left it cancelling. -/
def settleCancel (config : Config) (row : CancellingAgreement) (txHash : Option TxHash)
    (byIndexer : Bool) (chainNow : Option Nat) : Act RetryLog := do
  if ← confirmIfOver config row txHash byIndexer chainNow then return .confirmed
  noteCheck row none (some true)
  return .stillCancelling

def retryCancel (config : Config) (row : CancellingAgreement) (chainNow : Option Nat) :
    Act RetryLog := do
  match ← cancelIfLive row.agreement with
  | .readFailed _ =>
    -- Unread, it may still be live, so it can't be confirmed ended.
    noteCheck row none none
    return .readFailed
  | .unconfirmed .. =>
    noteCheck row none none
    return .unconfirmed
  | .cancelFailed err =>
    noteCheck row (some err) (some false)
    return .cancelFailed
  | .notLive byIndexer => settleCancel config row none byIndexer chainNow
  | .ended txHash => settleCancel config row txHash false chainNow

/-- The rows one by one, until the time budget runs out. -/
def retryEach (config : Config) (chainNow : Option Nat) (started : Nat) :
    List CancellingAgreement → Act (List RetryLog)
  | [] => return []
  | row :: rest => do
    let now ← nowSecs
    if started + sweepBudgetSecs ≤ now then return []
    let log ← retryCancel config row chainNow
    return log :: (← retryEach config chainNow started rest)

def chainTime : Act (Option Nat) := do
  match ← ChainClient.latestBlockTimestamp with
  | .ok chainNow => return some chainNow
  | .error _ => return none

/-- The chain's time, read once for a sweep with agreements never seen accepted. -/
def readChainNow (rows : List CancellingAgreement) : Act (Option Nat) :=
  if rows.any fun row => !row.acceptedOnChain then chainTime else return none

/-- One sweep, with what it logged of each agreement, or nothing when they could not be listed. -/
def retryCancellingAgreements (config : Config) : Act (Option (List RetryLog)) := do
  match ← Registry.select (.cancelling cancelRetryBatchSize maxCancelAttempts settleMinutes) with
  | .error _ => return none
  | .ok rows =>
    let cancelling := rows.map fun r => r.2.cancelling r.1
    if cancelling.isEmpty then return some []
    let chainNow ← readChainNow cancelling
    let started ← nowSecs
    return some (← retryEach config chainNow started cancelling)

end Dipper
