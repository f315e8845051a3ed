import Dipper.World

/-! The configuration and the calls of dipper's services: one program for each function of the
registry, the chain client, the queue and the broker. -/

namespace Dipper

structure Config where
  recurringAgreementManager : Address
  reorgBufferBlocks : Nat
  chainTsDriftToleranceSecs : Nat
  wallClockSkewToleranceSecs : Nat
  bypassChainClockDefenses : Bool
  pollIntervalSecs : Nat
  expirationGraceSecs : Nat
  expirationBatchSize : Nat
  maxInFlightOffersTotal : Option Nat
  maxInFlightOffersPerIndexer : Option Nat
  durationSeconds : Nat
  deadlineSeconds : Nat
  signerChainId : Nat
  chainListenerChainId : Option Nat
  deriving DecidableEq, Repr

namespace Registry

def select (q : AgreementQuery) :
    Act (Except RegistryError (List (IndexingAgreementId × AgreementRow))) :=
  call (.select q)

def update (id : IndexingAgreementId) (u : RowUpdate) : Act (Except RegistryError Updated) :=
  call (.update id u)

def agreements (rows : List (IndexingAgreementId × AgreementRow)) : List IndexingAgreement :=
  rows.map fun r => r.2.agreement r.1

def listAgreements (q : AgreementQuery) : Act (Except RegistryError (List IndexingAgreement)) := do
  match ← select q with
  | .ok rows => return .ok (agreements rows)
  | .error e => return .error e

def getIndexingAgreementById (id : IndexingAgreementId) :
    Act (Except RegistryError (Option IndexingAgreement)) := do
  match ← select (.byId id) with
  | .ok rows => return .ok (agreements rows).head?
  | .error e => return .error e

def getIndexingRequestById (request : IndexingRequestId) :
    Act (Except RegistryError (Option IndexingRequest)) :=
  call (.getRequest request)

def applyReconciliation (id : IndexingAgreementId) (applyAccept : Bool)
    (cancel : Option CancelKind) : Act (Except RegistryError ReconciliationOutcome) :=
  call (.applyReconciliation id applyAccept cancel)

def getPendingCancellationsByNewAgreement (new : IndexingAgreementId) :
    Act (Except RegistryError (List IndexingAgreementId)) :=
  call (.pendingByNew new)

def listExecutablePendingCancellations (limit : Nat) :
    Act (Except RegistryError (List IndexingAgreementId)) :=
  call (.executablePending limit)

def deletePendingCancellation (new old : IndexingAgreementId) : Act (Except RegistryError Unit) :=
  call (.deletePending new old)

def getChainListenerState : Act (Except RegistryError (Option (Cursor × Option Nat))) :=
  call .getListenerState

def updateChainListenerState (cursor : Cursor) (timestamp : Option Nat) :
    Act (Except RegistryError Unit) :=
  call (.updateListenerState cursor timestamp)

def applyReconciliationBatch (items : List ReconciliationItem) :
    Act (Except RegistryError Outcomes) :=
  call (.applyReconciliationBatch items)

def registerNewIndexingAgreement (params : NewAgreementParams) : Act (Except RegistryError Unit) :=
  call (.register params none)

def registerAgreementWithPendingCancellation (params : NewAgreementParams)
    (old : IndexingAgreementId) : Act (Except RegistryError Unit) :=
  call (.register params (some old))

def setIndexingRequestShortfallActive (request : IndexingRequestId) (active : Bool) :
    Act (Except RegistryError Bool) :=
  call (.setShortfallActive request active)

def deletePendingCancellationsByNewAgreement (new : IndexingAgreementId) :
    Act (Except RegistryError Unit) :=
  call (.deletePendingByNew new)

end Registry

namespace ChainClient

def offerViaManager (id : IndexingAgreementId) (deadline : Nat) :
    Act (Except ChainClientError (Option TxHash)) :=
  call (.offerViaManager id deadline)

def cancelViaManager (id : IndexingAgreementId) (versionHash : List UInt8) :
    Act (Except ChainClientError (Option TxHash)) :=
  call (.cancelViaManager id versionHash)

def agreementOnChain (id : IndexingAgreementId) :
    Act (Except ChainClientError AgreementOnChain) :=
  call (.agreementOnChain id)

def latestBlockTimestamp : Act (Except ChainClientError Nat) :=
  call .latestBlockTimestamp

end ChainClient

def nowSecs : Act Nat := call .now

def push (job : Job) : Act (Except Unit Unit) := call (.push job)

def emit (event : Event) : Act (Except Unit Unit) := call (.emit event)

def stopRequested : Act Bool := call .stopRequested

/-- Whether the indexer stopped serving the agreement, as the liveness check reads it. -/
def isStale (id : IndexingAgreementId) : Act Bool := call (.stale id)

def sendIndexingAgreementProposal (id : IndexingAgreementId) : Act ProposalReply :=
  call (.sendProposal id)

def note (n : Note) : Act Unit := call (.note n)

def remember (memory : ListenerMemory) : Act Unit := call (.remember memory)

def queryChanged (since : Cursor) (pinned : Option Nat) :
    Act (Except ChainEventError ChangedAgreementsResponse) :=
  call (.getChanged since pinned)

/-- The load balancing context, the chain's name and the breaker of unresponsive indexers. -/
def gatherSelectionContext : Act (Except Unit Unit) := call .selectionContext

def selectIndexers (request : IndexingRequestId) (numCandidates : Nat) :
    Act (Except SelectionError (List SelectedIndexer)) :=
  call (.selectIndexers request numCandidates)

/-- A new agreement's id on the chain and the hash of its terms. -/
def newAgreementId : Act (IndexingAgreementId × List UInt8) := call .newAgreementId

/-- A hash set's elements in the order it happens to iterate. -/
def iterate (ids : List IndexerId) : Act (List IndexerId) := call (.iterate ids)

end Dipper
