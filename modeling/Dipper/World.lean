import Dipper.Chain
import Dipper.Concurrent.System
import Dipper.Registry.Database
import Dipper.Subgraph

/-! The world dipper's services share: the registry, the chain, the subgraph, the worker queue and
the event broker, with the operations a service performs on them one at a time.  Each operation
gives its result and effect for each way it can come out. -/

namespace Dipper

/-- When an agreement was accepted on-chain, and in which transaction. -/
structure ChainAccept where
  at' : Nat
  tx : String
  deriving DecidableEq, Repr

inductive Job : Type
  | sendIndexingAgreementProposal (id : IndexingAgreementId) (request : IndexingRequestId)
  | submitOffer (id : IndexingAgreementId) (request : IndexingRequestId)
  | reassessIndexingRequest (request : IndexingRequestId)
  | cancelRejectedAgreementOnChain (id : IndexingAgreementId) (accept : Option ChainAccept)
  deriving DecidableEq, Repr

/-- The lifecycle events of agreements. -/
inductive Event : Type
  | accepted (id : IndexingAgreementId) (indexer : IndexerId) (acceptedAt : Nat)
      (acceptedTx : String) (endsAt : Nat) (payer : Address)
  | terminated (id : IndexingAgreementId) (indexer : IndexerId) (terminatedAt : Nat)
      (terminatedBy terminatedTx : String) (remainingAccepted : Int)
  | requestExpired (id : IndexingAgreementId) (indexer : IndexerId)
      (requestProposedAt requestExpiredAt : Nat)
  | nIndexersUnavailable (deployment : DeploymentId) (agreementsRequested candidatesReturned : Nat)
  | proposed (deployment : DeploymentId) (candidates : List IndexerId) (requestExpiresAt : Nat)
  deriving DecidableEq, Repr

inductive ChainClientError : Type
  | missingTermsVersionHash (id : IndexingAgreementId)
  | cancelNotConfirmed (id : IndexingAgreementId)
  | txDropped (receiptChecked : Bool)
  | contractRevert
  | other
  deriving DecidableEq, Repr

/-- What a proposal sent to an indexer comes back with. -/
inductive ProposalReply : Type
  | accepted
  | rejected (reason : String)
  | noOutcome
  | failed
  deriving DecidableEq, Repr

inductive SelectionError : Type
  | iisaServiceUnavailable
  | iisaRejected
  | error
  deriving DecidableEq, Repr

/-- An indexer IISA picked; `offer` says whether dipper knows it and has a price for it. -/
structure SelectedIndexer where
  id : IndexerId
  offer : Bool
  deriving DecidableEq, Repr

/-- The chain listener's record of a page it has dealt with, and the alerts it raises. -/
inductive Note : Type
  /-- The snapshots of a page have been through reconciliation; `unapplied` names those that
  failed. -/
  | pageDone (since : Cursor) (snapshots : List AgreementStateSnapshot)
      (unapplied : List IndexingAgreementId)
  | changesSkipped (cursorBlock agreementCount : Nat) (agreementIds : String)
      (unapplied : List IndexingAgreementId)
  | cursorHeld (cursorBlock agreementCount : Nat) (agreementIds : String)
  deriving DecidableEq, Repr

structure CursorHold where
  cursor : Cursor
  since : Nat
  deriving DecidableEq, Repr

/-- What the chain listener keeps in memory from one poll to the next. -/
structure ListenerMemory where
  cursor : Cursor := .genesis
  cursorHold : Option CursorHold := none
  lastPersistedTimestamp : Option Nat := none
  lastSubgraphHead : Nat := 0
  stallCount : Nat := 0
  consecutiveFailures : Nat := 0
  /-- The changes chain checks were queued for, by agreement and block. -/
  liveChecks : List (IndexingAgreementId × Nat) := []
  pollsSinceSweep : Nat := 60
  brokerDownSince : Option Nat := none
  brokerBackoff : Nat := 0
  deriving DecidableEq, Repr

/-- The subgraph with the chain as of the block it has indexed up to. -/
structure Indexed where
  graph : Subgraph
  chain : IndexingAgreementId → OnChain

/-- The state the services share.  `pinned` is what the last query of the subgraph's latest block
saw, which queries pinned to that block go on seeing.  From `replaced` on the fields are history:
the pairs ever registered as replacements, the rows the last terminated sweep listed, the
agreements the last accepted sweep listed, those an accept was committed for, the chain times the
listener persisted, the rows it read for its page, the agreements whose accept time a page did not
tell, and the times of the heads its pages came with. -/
structure World where
  now : Nat
  agreements : Agreements
  pending : List (IndexingAgreementId × IndexingAgreementId)
  requests : Requests
  listenerState : Option (Cursor × Option Nat)
  chain : IndexingAgreementId → OnChain
  chainTime : Nat
  indexed : Indexed
  pinned : Indexed
  jobs : List Job
  events : List Event
  journal : List Note
  memory : ListenerMemory
  replaced : List (IndexingAgreementId × IndexingAgreementId)
  terminatedListed : List (IndexingAgreementId × AgreementRow)
  acceptedListed : List IndexingAgreementId
  acceptsApplied : List IndexingAgreementId
  clocks : List Nat
  pageListed : List (IndexingAgreementId × AgreementRow)
  misread : List IndexingAgreementId
  heads : List Nat

/-- The operations of the services, each atomic. -/
inductive Op : Type
  | select (q : AgreementQuery)
  | update (id : IndexingAgreementId) (u : RowUpdate)
  | applyReconciliation (id : IndexingAgreementId) (applyAccept : Bool)
      (cancel : Option CancelKind)
  | applyReconciliationBatch (items : List ReconciliationItem)
  | register (params : NewAgreementParams) (replaces : Option IndexingAgreementId)
  | pendingByNew (new : IndexingAgreementId)
  | executablePending (limit : Nat)
  | deletePendingByNew (new : IndexingAgreementId)
  | deletePending (new old : IndexingAgreementId)
  | getRequest (request : IndexingRequestId)
  | setShortfallActive (request : IndexingRequestId) (active : Bool)
  | getListenerState
  | updateListenerState (cursor : Cursor) (timestamp : Option Nat)
  | offerViaManager (id : IndexingAgreementId) (deadline : Nat)
  | cancelViaManager (id : IndexingAgreementId) (versionHash : List UInt8)
  | agreementOnChain (id : IndexingAgreementId)
  | latestBlockTimestamp
  | getChanged (since : Cursor) (pinned : Option Nat)
  | emit (event : Event)
  | push (job : Job)
  | now
  | stopRequested
  | sendProposal (id : IndexingAgreementId)
  | selectionContext
  | selectIndexers (request : IndexingRequestId) (numCandidates : Nat)
  | newAgreementId
  | iterate (ids : List IndexerId)
  | stale (id : IndexingAgreementId)
  | note (n : Note)
  | remember (memory : ListenerMemory)
  deriving DecidableEq, Repr

def Res : Op → Type
  | .select _ => Except RegistryError (List (IndexingAgreementId × AgreementRow))
  | .update .. => Except RegistryError Updated
  | .applyReconciliation .. => Except RegistryError ReconciliationOutcome
  | .applyReconciliationBatch _ => Except RegistryError Outcomes
  | .register .. | .deletePendingByNew _ | .deletePending .. | .updateListenerState .. =>
    Except RegistryError Unit
  | .pendingByNew _ | .executablePending _ => Except RegistryError (List IndexingAgreementId)
  | .getRequest _ => Except RegistryError (Option IndexingRequest)
  | .setShortfallActive .. => Except RegistryError Bool
  | .getListenerState => Except RegistryError (Option (Cursor × Option Nat))
  | .offerViaManager .. | .cancelViaManager .. => Except ChainClientError (Option TxHash)
  | .agreementOnChain _ => Except ChainClientError AgreementOnChain
  | .latestBlockTimestamp => Except ChainClientError Nat
  | .getChanged .. => Except ChainEventError ChangedAgreementsResponse
  | .emit _ | .push _ => Except Unit Unit
  | .now => Nat
  | .stopRequested | .stale _ => Bool
  | .sendProposal _ => ProposalReply
  | .selectionContext => Except Unit Unit
  | .selectIndexers .. => Except SelectionError (List SelectedIndexer)
  | .newAgreementId => IndexingAgreementId × List UInt8
  | .iterate _ => List IndexerId
  | .note _ | .remember _ => Unit

/-- How an operation comes out.  What fails has had no effect (`fail`), or has had it and the
answer was lost (`lost`). -/
inductive Choice : Type
  | ok
  | fail
  | lost
  | rows (ids : List IndexingAgreementId)
  | mined (tx : Option TxHash) (effective : Bool)
  | chainError (e : ChainClientError) (effective : Bool)
  | page (r : ChangedAgreementsResponse)
  | noPage (e : ChainEventError)
  | reply (r : ProposalReply)
  | selected (r : Except SelectionError (List SelectedIndexer))
  | fresh (id : IndexingAgreementId) (versionHash : List UInt8)
  | order (ids : List IndexerId)
  | answer (b : Bool)

namespace Choice

def ok? : Choice → Option Unit
  | .ok => some ()
  | _ => none

def result? : Choice → Option (Except Unit Unit)
  | .ok => some (.ok ())
  | .fail => some (.error ())
  | _ => none

def reply? : Choice → Option ProposalReply
  | .reply r => some r
  | _ => none

def selected? : Choice → Option (Except SelectionError (List SelectedIndexer))
  | .selected r => some r
  | _ => none

/-- A new id comes with a hash of 32 bytes. -/
def fresh? : Choice → Option (IndexingAgreementId × List UInt8)
  | .fresh id versionHash => if versionHash.length = 32 then some (id, versionHash) else none
  | _ => none

def order? (ids : List IndexerId) : Choice → Option (List IndexerId)
  | .order ids' => if ids'.Perm ids then some ids' else none
  | _ => none

def answer? : Choice → Option Bool
  | .answer b => some b
  | _ => none

end Choice

namespace World

def row (w : World) (id : IndexingAgreementId) : Option AgreementRow := w.agreements.lookup id

def setRow (w : World) (id : IndexingAgreementId) (row : AgreementRow) : World :=
  { w with agreements := w.agreements.insert id row }

def setChain (w : World) (id : IndexingAgreementId) (c : OnChain) : World :=
  { w with chain := Function.update w.chain id c }

/-- A statement of the registry: `effect` and its result, an error with no effect, or the effect
with its answer lost. -/
def statement {β : Type} (w : World) (effect : World × Except RegistryError β) :
    Choice → Option (Except RegistryError β × World)
  | .ok => some (effect.2, effect.1)
  | .fail => some (.error .backend, w)
  | .lost => some (.error .backend, effect.1)
  | _ => none

def registryRead {β : Type} (w : World) (value : β) :
    Choice → Option (Except RegistryError β × World)
  | .ok => some (.ok value, w)
  | .fail => some (.error .backend, w)
  | _ => none

def runUpdate (w : World) (id : IndexingAgreementId) (u : RowUpdate) :
    World × Except RegistryError Updated :=
  match w.row id with
  | none => (w, if u.needsRow then .error .noRecordsUpdated else .ok {})
  | some row =>
    match u.run w.now row with
    | none => (w, if u.needsRow then .error .noRecordsUpdated else .ok {})
    | some row' => (w.setRow id row', .ok (u.returning row row'))

def runReconciliation (w : World) (id : IndexingAgreementId) (applyAccept : Bool)
    (cancel : Option CancelKind) : World × Except RegistryError ReconciliationOutcome :=
  match w.agreements.applyReconciliation w.now id applyAccept cancel with
  | .ok (t, outcome) => ({ w with agreements := t }, .ok outcome)
  | .error e => (w, .error e)

def acceptsOf (items : List ReconciliationItem) : List IndexingAgreementId :=
  Agreements.idsOf items fun item => item.applyAccept

def runBatch (w : World) (items : List ReconciliationItem) :
    World × Except RegistryError Outcomes :=
  match w.agreements.applyReconciliationBatch w.now items with
  | .ok (t, outcomes) =>
    ({ w with agreements := t, acceptsApplied := w.acceptsApplied ++ acceptsOf items },
      .ok outcomes)
  | .error e => (w, .error e)

/-- Store the pending cancellation of the agreement that `new` replaces, if it replaces one. -/
def addPending (w : World) (new : IndexingAgreementId) : Option IndexingAgreementId → World
  | none => w
  | some old =>
    { w with
      pending := if (new, old) ∈ w.pending then w.pending else w.pending ++ [(new, old)]
      replaced := w.replaced ++ [(new, old)] }

/-- Insert an agreement and, in the same transaction, the pending cancellation of the one it
replaces.  A key that is taken fails the insert. -/
def runRegister (w : World) (params : NewAgreementParams)
    (replaces : Option IndexingAgreementId) : World × Except RegistryError Unit :=
  if (w.row params.agreementId).isSome then (w, .error .backend)
  else ((w.setRow params.agreementId (params.row w.now)).addPending params.agreementId replaces,
    .ok ())

def listed (w : World) (ids : List IndexingAgreementId) :
    List (IndexingAgreementId × AgreementRow) :=
  ids.filterMap fun id => (w.row id).map fun row => (id, row)

def runSelect (w : World) (q : AgreementQuery) (choice : Choice) :
    Option (Except RegistryError (List (IndexingAgreementId × AgreementRow)) × World) :=
  match choice with
  | .fail =>
    some (.error .backend, match q with
      | .pendingAcceptedEmission _ => { w with acceptedListed := [] }
      | _ => w)
  | .rows ids =>
    if q.Lists w.now w.requests w.agreements ids then
      some (.ok (w.listed ids), match q with
        | .pendingTerminatedEmission _ => { w with terminatedListed := w.listed ids }
        | .pendingAcceptedEmission _ => { w with acceptedListed := ids }
        | .byIds _ => { w with pageListed := w.listed ids }
        | _ => w)
    else none
  | _ => none

def setListenerState (w : World) (cursor : Cursor) (timestamp : Option Nat) : World :=
  { w with
    listenerState := some (cursor, timestamp)
    clocks := w.clocks ++ timestamp.toList }

/-- The new agreements with pending cancellations whose row has reached `AcceptedOnChain`. -/
def executable (w : World) : List IndexingAgreementId :=
  (w.pending.map (·.1)).dedup.filter fun id =>
    (w.row id).any fun row => row.status = .acceptedOnChain

/-- A transaction sent to the chain, which can be mined and do nothing, and can fail having done
its work or not. -/
def transaction (w w' : World) :
    Choice → Option (Except ChainClientError (Option TxHash) × World)
  | .mined tx effective => some (.ok tx, if effective then w' else w)
  | .chainError e effective => some (.error e, if effective then w' else w)
  | _ => none

def chainRead {β : Type} (w : World) (value : β) :
    Choice → Option (Except ChainClientError β × World)
  | .ok => some (.ok value, w)
  | .chainError e _ => some (.error e, w)
  | _ => none

/-- A message handed to the broker or the queue. -/
def send (w w' : World) : Choice → Option (Except Unit Unit × World)
  | .ok => some (.ok (), w')
  | .fail => some (.error (), w)
  | .lost => some (.error (), w')
  | _ => none

/-- The new agreements whose pending cancellations can be executed, at most `limit` of them. -/
def runExecutable (w : World) (limit : Nat) :
    Choice → Option (Except RegistryError (List IndexingAgreementId) × World)
  | .rows ids =>
    if Listing.IsListing (fun id => id) (some limit) w.executable ids then some (.ok ids, w)
    else none
  | .fail => some (.error .backend, w)
  | _ => none

/-- A query that pins no block sees the subgraph's latest, which later ones may pin. -/
def pin (w : World) (pinned : Option Nat) : World :=
  if pinned.isNone then { w with pinned := w.indexed } else w

/-- The world after a page of the subgraph. -/
def answered (w : World) (pinned : Option Nat) (r : ChangedAgreementsResponse) : World :=
  { w.pin pinned with
    pageListed := []
    misread := w.misread ++ (w.pin pinned).pinned.graph.misread r
    heads := w.heads ++ r.blockTimestamp.toList }

def runQuery (w : World) (since : Cursor) (pinned : Option Nat) :
    Choice → Option (Except ChainEventError ChangedAgreementsResponse × World)
  | .page r =>
    if (w.pin pinned).pinned.graph.Answers since r then some (.ok r, w.answered pinned r) else none
  | .noPage e => some (.error e, w)
  | _ => none

/-- The result and effect of an operation, for each way it can come out. -/
def exec (w : World) : (o : Op) → Choice → Option (Res o × World)
  | .select q, c => w.runSelect q c
  | .update id u, c => w.statement (w.runUpdate id u) c
  | .applyReconciliation id applyAccept cancel, c =>
    w.statement (w.runReconciliation id applyAccept cancel) c
  | .applyReconciliationBatch items, c => w.statement (w.runBatch items) c
  | .register params replaces, c => w.statement (w.runRegister params replaces) c
  | .pendingByNew new, c =>
    w.registryRead ((w.pending.filter fun p => p.1 = new).map (·.2)) c
  | .executablePending limit, c => w.runExecutable limit c
  | .deletePendingByNew new, c =>
    w.statement ({ w with pending := w.pending.filter fun p => p.1 ≠ new }, .ok ()) c
  | .deletePending new old, c =>
    w.statement ({ w with pending := w.pending.filter fun p => p ≠ (new, old) }, .ok ()) c
  | .getRequest request, c => w.registryRead (w.requests.lookup request) c
  | .setShortfallActive request active, c =>
    let changes := (w.requests.lookup request).any fun r => r.shortfallActive ≠ active
    w.statement (match w.requests.lookup request with
      | some r =>
        ({ w with requests := w.requests.insert request { r with shortfallActive := active } },
          .ok changes)
      | none => (w, .ok changes)) c
  | .getListenerState, c => w.registryRead w.listenerState c
  | .updateListenerState cursor timestamp, c =>
    w.statement (w.setListenerState cursor timestamp, .ok ()) c
  | .offerViaManager id deadline, c =>
    w.transaction (w.setChain id ((w.chain id).offer deadline)) c
  | .cancelViaManager id _, c =>
    w.transaction (w.setChain id ((w.chain id).cancel w.chainTime)) c
  | .agreementOnChain id, c => w.chainRead ((w.chain id).read w.chainTime) c
  | .latestBlockTimestamp, c => w.chainRead w.chainTime c
  | .getChanged since pinned, c => w.runQuery since pinned c
  | .emit event, c => w.send { w with events := w.events ++ [event] } c
  | .push job, c => w.send { w with jobs := w.jobs ++ [job] } c
  | .now, c => c.ok?.map fun _ => (w.now, w)
  | .stopRequested, c | .stale _, c => c.answer?.map fun b => (b, w)
  | .sendProposal _, c => c.reply?.map fun r => (r, w)
  | .selectionContext, c => c.result?.map fun r => (r, w)
  | .selectIndexers _ _, c => c.selected?.map fun r => (r, w)
  | .newAgreementId, c => c.fresh?.map fun r => (r, w)
  | .iterate ids, c => (c.order? ids).map fun r => (r, w)
  | .note n, c => c.ok?.map fun _ => ((), { w with journal := w.journal ++ [n] })
  | .remember memory, c => c.ok?.map fun _ => ((), { w with memory := memory })

/-- An operation on the world that comes out in a way that is allowed. -/
def Performs (allow : World → Op → Choice → Prop) (w : World) (o : Op) (r : Res o)
    (w' : World) : Prop :=
  ∃ c, allow w o c ∧ w.exec o c = some (r, w')

/-- The operations that come out in an allowed way. -/
def execAllowed (allow : World → Op → Choice → Prop) [∀ w o c, Decidable (allow w o c)]
    (w : World) (o : Op) (c : Choice) : Option (Res o × World) :=
  if allow w o c then w.exec o c else none

theorem performs_of_execAllowed {allow : World → Op → Choice → Prop}
    [∀ w o c, Decidable (allow w o c)] {w w' : World} {o : Op} {c : Choice} {r : Res o}
    (h : w.execAllowed allow o c = some (r, w')) : w.Performs allow o r w' := by
  obtain ⟨hAllow, hExec⟩ := Option.ite_none_right_eq_some.mp h
  exact ⟨c, hAllow, hExec⟩

end World

/-- A program of dipper's services. -/
abbrev Act (α : Type) : Type := Concurrent.Prog Op Res α

def call (o : Op) : Act (Res o) := Concurrent.Prog.perform o

end Dipper
