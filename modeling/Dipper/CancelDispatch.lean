import Dipper.Calls

/-! On-chain cancel dispatch.  An agreement dipper ends is marked `Cancelling` first, then
cancelled on the chain if the chain shows it live; the cancel retry finishes the rest. -/

namespace Dipper

inductive LiveCancel : Type
  | notLive (byIndexer : Bool)
  | ended (txHash : Option TxHash)
  | readFailed (err : ChainClientError)
  | unconfirmed (txHash : Option TxHash) (err : ChainClientError)
  | cancelFailed (err : ChainClientError)
  deriving DecidableEq, Repr

/-- The stored terms hash an on-chain cancel needs; only one of 32 bytes will do. -/
def cancelHash (agreement : IndexingAgreement) : Option (List UInt8) :=
  agreement.termsVersionHash.filter fun h => h.length = 32

def cancelAgreementOnChain (agreement : IndexingAgreement) : Act LiveCancel :=
  match cancelHash agreement with
  | none => return .cancelFailed (.missingTermsVersionHash agreement.id)
  | some versionHash => do
    match ← ChainClient.cancelViaManager agreement.id versionHash with
    | .error err => return .cancelFailed err
    | .ok txHash =>
      -- The cancel mines even when it does nothing, so only a read says what it did.
      match ← ChainClient.agreementOnChain agreement.id with
      | .ok .notLive => return .ended txHash
      | .ok .endedByIndexer => return .notLive true
      | .ok .live => return .cancelFailed (.cancelNotConfirmed agreement.id)
      | .error err => return .unconfirmed txHash err

def cancelIfLive (agreement : IndexingAgreement) : Act LiveCancel := do
  match ← ChainClient.agreementOnChain agreement.id with
  | .error err => return .readFailed err
  | .ok .live => cancelAgreementOnChain agreement
  | .ok ended => return .notLive (ended = .endedByIndexer)

inductive CancelReason : Type
  | notWanted
  | abandoned
  deriving DecidableEq, Repr

inductive CancelStarted : Type
  | ended
  | notLive
  | mayBeLive
  deriving DecidableEq, Repr

def markCancelling (agreement : IndexingAgreement) :
    CancelReason → Act (Except RegistryError Updated)
  | .notWanted => Registry.update agreement.id .markAsCancelling
  | .abandoned => Registry.update agreement.id .markAsAbandoning

def markEnded (agreement : IndexingAgreement) :
    CancelReason → Act (Except RegistryError Updated)
  | .notWanted => Registry.update agreement.id .markAsCanceledByRequester
  | .abandoned => Registry.update agreement.id .markAsAbandonedByIndexer

/-- Record dipper's own cancel; a failure is only logged. -/
def recordCancel (config : Config) (agreement : IndexingAgreement) (txHash : Option TxHash) :
    Act Unit := do
  let now ← nowSecs
  let manager := config.recurringAgreementManager.text
  let _ ← Registry.update agreement.id (.recordCancelAudit now manager txHash)
  return ()

/-- Mark an agreement the chain shows dipper ended; one the listener marked first counts. -/
def confirmCancelled (config : Config) (agreement : IndexingAgreement) (reason : CancelReason)
    (txHash : Option TxHash) : Act Bool := do
  if txHash.isSome then recordCancel config agreement txHash
  match ← markEnded agreement reason with
  | .ok _ => return true
  | .error .noRecordsUpdated => return true
  | .error .backend => return false

def finishMarkedCancel (config : Config) (agreement : IndexingAgreement) (reason : CancelReason) :
    LiveCancel → Act CancelStarted
  | .notLive _ => return .notLive
  | .readFailed _ | .cancelFailed _ | .unconfirmed .. => return .mayBeLive
  | .ended txHash => do
    -- An offer never accepted could still land and be accepted until its deadline.
    if agreement.status ≠ .acceptedOnChain then return .notLive
    if ← confirmCancelled config agreement reason txHash then return .ended
    return .notLive

def sendMarkedCancel (config : Config) (agreement : IndexingAgreement) (reason : CancelReason) :
    Act CancelStarted := do
  let cancel ← cancelIfLive agreement
  finishMarkedCancel config agreement reason cancel

def startCancel (config : Config) (agreement : IndexingAgreement) (reason : CancelReason) :
    Act (Except RegistryError CancelStarted) := do
  match ← markCancelling agreement reason with
  | .error err => return .error err
  | .ok _ => return .ok (← sendMarkedCancel config agreement reason)

/-- `startCancel` for an agreement just read live, which isn't read again before the cancel. -/
def startCancelSeenLive (config : Config) (agreement : IndexingAgreement)
    (reason : CancelReason) : Act (Except RegistryError CancelStarted) := do
  match ← markCancelling agreement reason with
  | .error err => return .error err
  | .ok _ =>
    let cancel ← cancelAgreementOnChain agreement
    return .ok (← finishMarkedCancel config agreement reason cancel)

inductive Reopen : Type
  | reopened
  | left
  | unread (err : ChainClientError)
  deriving DecidableEq, Repr

def reopen (agreement : IndexingAgreement) (seenLive : Bool) :
    Act (Except RegistryError Reopen) := do
  match ← Registry.update agreement.id (.reopenCancel seenLive) with
  | .ok _ => return .ok .reopened
  | .error .noRecordsUpdated => return .ok .left
  | .error .backend => return .error .backend

/-- Move an agreement dipper rejected or cancelled back into `Cancelling` if the chain shows it
live.  An unreadable chain reopens only a rejected one. -/
def reopenIfLive (agreement : IndexingAgreement) : Act (Except RegistryError Reopen) := do
  match ← ChainClient.agreementOnChain agreement.id with
  | .ok .live => reopen agreement true
  | .ok _ => return .ok .left
  | .error err =>
    if agreement.status ≠ .rejected then return .ok (.unread err)
    reopen agreement false

end Dipper
