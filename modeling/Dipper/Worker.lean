import Dipper.CancelDispatch
import Dipper.Duration

/-! The worker's jobs on one agreement: sending its proposal to the indexer, submitting its offer
on-chain, and checking on-chain an agreement dipper ended that was accepted anyway. -/

namespace Dipper

/-- Delays are in nanoseconds. -/
inductive JobError : Type
  | retryable (baseDelay : Nat)
  | deferred (delay : Nat)
  | fatal
  deriving DecidableEq, Repr

namespace SubmitOffer

def droppedTxRetryBase : Nat := Duration.fromSecs 5
def transientRetryBase : Nat := Duration.fromSecs 30

inductive NextStep : Type
  | offer (agreement : IndexingAgreement)
  | withdraw (agreement : IndexingAgreement)
  | skip
  deriving DecidableEq, Repr

/-- Whether dipper has cancelled the agreement, or started to. -/
def dipperCancelled (status : IndexingAgreementStatus) : Bool :=
  status = .cancelling || status = .canceledByRequester

def nextStep (id : IndexingAgreementId) : Act (Except JobError NextStep) := do
  match ← Registry.getIndexingAgreementById id with
  | .error _ => return .error .fatal
  | .ok none => return .ok .skip
  | .ok (some a) =>
    if a.status = .created then return .ok (.offer a)
    if dipperCancelled a.status then return .ok (.withdraw a)
    return .ok .skip

def withdrawOfferIfStored (agreement : IndexingAgreement) : Act (Except JobError Unit) := do
  match ← cancelIfLive agreement with
  | .notLive _ | .ended _ => return .ok ()
  | .cancelFailed (.missingTermsVersionHash _) => return .error .fatal
  | .unconfirmed .. | .readFailed _ | .cancelFailed _ =>
    return .error (.retryable transientRetryBase)

/-- The agreement, if it was cancelled after the job's status check.  After a failed read the job
still finishes. -/
def cancelledMeanwhile (id : IndexingAgreementId) : Act (Option IndexingAgreement) := do
  match ← Registry.getIndexingAgreementById id with
  | .ok (some a) => return if dipperCancelled a.status then some a else none
  | _ => return none

/-- After the offer landed: withdraw it if the agreement was cancelled meanwhile. -/
def checkCancelled (id : IndexingAgreementId) : Act (Except JobError Unit) := do
  match ← cancelledMeanwhile id with
  | some agreement => withdrawOfferIfStored agreement
  | none => return .ok ()

def submitOffer (agreement : IndexingAgreement) : Act (Except JobError Unit) := do
  match ← ChainClient.offerViaManager agreement.id agreement.terms.deadline with
  | .ok none => checkCancelled agreement.id
  | .ok (some txHash) =>
    -- A failure to store the hash does not stop the job.
    let _ ← Registry.update agreement.id (.updateOfferTxHash txHash)
    checkCancelled agreement.id
  | .error (.txDropped _) => return .error (.retryable droppedTxRetryBase)
  | .error .contractRevert => return .error .fatal
  | .error _ => return .error (.retryable transientRetryBase)

def handle (id : IndexingAgreementId) : Act (Except JobError Unit) := do
  match ← nextStep id with
  | .error err => return .error err
  | .ok (.offer agreement) => submitOffer agreement
  | .ok (.withdraw agreement) => withdrawOfferIfStored agreement
  | .ok .skip => return .ok ()

end SubmitOffer

namespace SendProposal

def queueReassessment (request : IndexingRequestId) : Act (Except JobError Unit) := do
  match ← Registry.getIndexingRequestById request with
  | .error _ => return .error .fatal
  | .ok _ =>
    match ← push (.reassessIndexingRequest request) with
    | .ok _ => return .ok ()
    | .error _ => return .error .fatal

/-- Mark the agreement, drop the pending cancellations of what it was to replace, and reassess. -/
def markAndReassess (id : IndexingAgreementId) (request : IndexingRequestId) (mark : RowUpdate) :
    Act (Except JobError Unit) := do
  match ← Registry.update id mark with
  | .error _ => return .error .fatal
  | .ok _ =>
    match ← Registry.deletePendingCancellationsByNewAgreement id with
    | .error _ => return .error .fatal
    | .ok _ => queueReassessment request

def markRejectedAndReassess (id : IndexingAgreementId) (request : IndexingRequestId)
    (reason : String) : Act (Except JobError Unit) :=
  markAndReassess id request (.markAsRejected (some reason))

def markFailedAndReassess (id : IndexingAgreementId) (request : IndexingRequestId) :
    Act (Except JobError Unit) :=
  markAndReassess id request .markAsUnresponsive

def handle (id : IndexingAgreementId) (request : IndexingRequestId) :
    Act (Except JobError Unit) := do
  match ← Registry.getIndexingAgreementById id with
  | .error _ => return .error .fatal
  | .ok none => return .ok ()
  | .ok (some agreement) =>
    if agreement.status ≠ .created then return .ok ()
    match ← sendIndexingAgreementProposal id with
    | .accepted =>
      match ← push (.submitOffer id request) with
      | .ok _ => return .ok ()
      | .error _ => return .error .fatal
    | .rejected reason => markRejectedAndReassess id request reason
    | .noOutcome => markRejectedAndReassess id request "UNSPECIFIED"
    | .failed => markFailedAndReassess id request

end SendProposal

namespace CancelRejected

def retryDelay : Nat := Duration.fromSecs 30
def chainReadRetryDelay : Nat := Duration.fromSecs 300

/-- Move an agreement back into `Cancelling` if the chain shows it live; whether it moved. -/
def reopen (agreement : IndexingAgreement) : Act (Except JobError Bool) := do
  match ← reopenIfLive agreement with
  | .error _ => return .error (.deferred retryDelay)
  | .ok .reopened => return .ok true
  | .ok .left => return .ok false
  | .ok (.unread _) => return .error (.deferred chainReadRetryDelay)

/-- Record the accept the listener saw, for an agreement that is being cancelled. -/
def recordAccept (id : IndexingAgreementId) (accept : Option ChainAccept) :
    Act (Except JobError Unit) :=
  match accept with
  | none => return .ok ()
  | some accept => do
    match ← Registry.update id (.recordAcceptedAudit accept.at' accept.tx) with
    | .ok _ => return .ok ()
    | .error _ => return .error (.deferred retryDelay)

def handle (id : IndexingAgreementId) (accept : Option ChainAccept) :
    Act (Except JobError Unit) := do
  match ← Registry.getIndexingAgreementById id with
  | .error _ => return .error (.deferred retryDelay)
  | .ok none => return .ok ()
  | .ok (some agreement) =>
    match agreement.status with
    | .rejected | .canceledByRequester =>
      match ← reopen agreement with
      | .error err => return .error err
      | .ok true => recordAccept id accept
      | .ok false => return .ok ()
    | .cancelling => recordAccept id accept
    | _ => return .ok ()

end CancelRejected

end Dipper
