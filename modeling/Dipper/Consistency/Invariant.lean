import Dipper.Effects
import Dipper.System

/-! The consistency of the world: how the registry's rows, the chain, the subgraph, the queue and
the listener's memory fit together, the conditions under which dipper's services perform their
operations, and what never goes back. -/

namespace Dipper

/-- A later state of an agreement on the chain: once accepted it stays so, since the same time, and
once ended too. -/
structure OnChain.Grows (c c' : OnChain) : Prop where
  accepted : c.WasAccepted → c'.WasAccepted
  ended : c.IsEnded → c'.IsEnded
  acceptedAt : ∀ at', c.acceptedAt = some at' → c'.acceptedAt = some at'

theorem OnChain.Grows.refl (c : OnChain) : c.Grows c := ⟨id, id, fun _ h => h⟩

theorem OnChain.Grows.trans {c c' c'' : OnChain} (h : c.Grows c') (h' : c'.Grows c'') :
    c.Grows c'' :=
  ⟨h'.accepted ∘ h.accepted, h'.ended ∘ h.ended, fun at' hAt => h'.acceptedAt at' (h.acceptedAt at' hAt)⟩

theorem OnChain.IsEnded.wasAccepted {c : OnChain} (h : c.IsEnded) : c.WasAccepted := by
  cases c <;> first | exact h.elim | trivial

def Event.acceptedId : Event → Option IndexingAgreementId
  | .accepted id .. => some id
  | _ => none

def Event.terminatedId : Event → Option IndexingAgreementId
  | .terminated id .. => some id
  | _ => none

/-- Statuses that a row leaves only when its agreement is ended. -/
def StatusesHeld (statuses : List IndexingAgreementStatus) : Prop :=
  ∀ s ∈ statuses, ∀ s' ∈ s.next, s' ∈ statuses ∨ s'.isTerminalCancel = true

instance (statuses : List IndexingAgreementStatus) : Decidable (StatusesHeld statuses) :=
  List.decidableBAll _ _

def openStatuses : List IndexingAgreementStatus :=
  [.created, .expired, .unresponsive, .rejected, .acceptedOnChain, .cancelling]

/-- The statuses that a snapshot of an accepted agreement asks nothing of. -/
def settledStatuses : List IndexingAgreementStatus :=
  [.acceptedOnChain, .cancelling, .unresponsive, .canceledByIndexer, .abandonedByIndexer]

def Job.checksChain : Job → Bool
  | .cancelRejectedAgreementOnChain .. => true
  | _ => false

namespace World

/-- The agreement was never accepted on the chain and its deadline has passed. -/
def Lapsed (w : World) (id : IndexingAgreementId) : Prop :=
  ¬ (w.chain id).WasAccepted ∧ ∃ row, w.row id = some row ∧ row.terms.deadline < w.chainTime

/-- The agreement is over on the chain for good: it was accepted and has ended, or it lapsed. -/
def Dead (w : World) (id : IndexingAgreementId) : Prop := (w.chain id).IsEnded ∨ w.Lapsed id

theorem Dead.isEnded {w : World} {id : IndexingAgreementId} (h : w.Dead id)
    (hAccepted : (w.chain id).WasAccepted) : (w.chain id).IsEnded :=
  h.resolve_right fun hNever => hNever.1 hAccepted

/-- The row and what the chain shows of its agreement fit together. -/
structure RowOk (w : World) (id : IndexingAgreementId) (row : AgreementRow) : Prop where
  seen : row.status = .acceptedOnChain ∨ row.abandoned = true → (w.pinned.chain id).WasAccepted
  accepted : row.acceptedAt.isSome = true → (w.chain id).WasAccepted ∧ row.status.taken = true
  abandoned : row.abandoned = true → row.status.ending = true ∧ row.status ≠ .canceledByRequester
  marked : row.status = .abandonedByIndexer → row.abandoned = true
  ended : row.status = .canceledByIndexer ∨ row.status = .abandonedByIndexer →
    (w.chain id).IsEnded
  versionHash : ∃ hash, row.termsVersionHash = some hash ∧ hash.length = 32
  recorded : row.status = .acceptedOnChain → row.acceptedAt.isSome = true

/-- The chain listener has seen the agreement accepted on the chain, and it has ended there since
or its row has one of the statuses. -/
def Followed (w : World) (statuses : List IndexingAgreementStatus) (id : IndexingAgreementId) :
    Prop :=
  (w.pinned.chain id).WasAccepted ∧
    ((w.chain id).IsEnded ∨ ∃ row, w.row id = some row ∧ row.status ∈ statuses)

def CheckQueued (w : World) (id : IndexingAgreementId) : Prop :=
  ∃ accept, Job.cancelRejectedAgreementOnChain id accept ∈ w.jobs

/-- The accept that a chain check carries is the agreement's; one that carries none had no time to
carry. -/
def Carries (w : World) (id : IndexingAgreementId) : Option ChainAccept → Prop
  | some accept => (w.chain id).acceptedAt = some accept.at'
  | none => (w.chain id).acceptedAt = some 0 ∨ id ∈ w.misread

structure Consistent (w : World) : Prop where
  rows : ∀ id row, w.row id = some row → w.RowOk id row
  offers : ∀ id, w.chain id ≠ .absent → ∃ row, w.row id = some row ∧
    (∀ deadline, w.chain id = .offered deadline → deadline = row.terms.deadline) ∧
    ∃ request, Job.submitOffer id request ∈ w.jobs
  pinned : ∀ id, (w.pinned.chain id).Grows (w.indexed.chain id)
  indexed : ∀ id, (w.indexed.chain id).Grows (w.chain id)
  indexedGraph : ∀ s ∈ w.indexed.graph.rows, Reflects (w.indexed.chain s.agreementId) s
  pinnedGraph : ∀ s ∈ w.pinned.graph.rows, Reflects (w.pinned.chain s.agreementId) s
  checks : ∀ id accept, Job.cancelRejectedAgreementOnChain id accept ∈ w.jobs →
    ∃ row, w.row id = some row ∧ row.status.closed = true ∧ w.Carries id accept
  pending : ∀ p ∈ w.pending, p ∈ w.replaced
  replaced : ∀ p ∈ w.replaced, (w.row p.1).isSome = true ∧ (w.row p.2).isSome = true
  memory : ∀ change ∈ w.memory.liveChecks, w.CheckQueued change.1
  memoryClock : ∀ ts ∈ w.memory.lastPersistedTimestamp, ts ∈ w.clocks
  clock : ∀ cursor ts, w.listenerState = some (cursor, some ts) → ts ∈ w.clocks

/-- An `accepted` event has been sent for the agreement. -/
def Announced (w : World) (id : IndexingAgreementId) : Prop :=
  ∃ e ∈ w.events, e.acceptedId = some id

/-- The last `terminated` event sent for the agreement. -/
def lastTerminated (w : World) (id : IndexingAgreementId) : Option Event :=
  w.events.reverse.find? fun e => e.terminatedId = some id

/-- What never goes back, whoever takes the steps from `w` to `w'`. -/
structure Grows (w w' : World) : Prop where
  rows : ∀ id row, w.row id = some row → ∃ row', w'.row id = some row' ∧ RowGrows row row'
  chain : ∀ id, (w.chain id).Grows (w'.chain id)
  time : w.chainTime ≤ w'.chainTime
  jobs : ∀ job ∈ w.jobs, job ∈ w'.jobs
  lapsed : ∀ id, w.Lapsed id → w'.Lapsed id
  events : ∀ e ∈ w.events, e ∈ w'.events
  followed : ∀ {statuses id}, StatusesHeld statuses → w.Followed statuses id →
    w'.Followed statuses id
  applied : ∀ id ∈ w.acceptsApplied, id ∈ w'.acceptsApplied
  clocks : ∀ ts ∈ w.clocks, ts ∈ w'.clocks
  misread : ∀ id ∈ w.misread, id ∈ w'.misread
  heads : ∀ head ∈ w.heads, head ∈ w'.heads

/-- What only the chain listener changes: the subgraph it has pinned, its page, what its sweeps
listed, sent and stamped, and agreements brought back into their request's group. -/
structure Quiet (w w' : World) : Prop where
  pinned : w'.pinned = w.pinned
  pageListed : w'.pageListed = w.pageListed
  inactive : ∀ id row row', w.row id = some row → w'.row id = some row' →
    row.status.active = false → row'.status.active = false
  acceptedListed : w'.acceptedListed = w.acceptedListed
  terminatedListed : w'.terminatedListed = w.terminatedListed
  lastTerminated : ∀ id, w'.lastTerminated id = w.lastTerminated id
  unstamped : ∀ id row row', w.row id = some row → w'.row id = some row' →
    row.terminatedEventEmittedAt = none → row'.terminatedEventEmittedAt = none

/-- The accept of the agreement is on its row, unless its indexer never answered. -/
def AcceptStored (w : World) (id : IndexingAgreementId) : Prop :=
  ∃ row, w.row id = some row ∧ (row.acceptedAt.isSome = true ∨ row.status = .unresponsive)

/-- The row was read for the page as one closed otherwise than the pinned chain shows, without the
accept of its agreement. -/
def ClosedUnrecorded (w : World) (id : IndexingAgreementId) : Prop :=
  ∃ row, (id, row) ∈ w.pageListed ∧ row.acceptedAt = none ∧
    (row.status = .rejected ∧ (w.pinned.chain id).IsEnded ∨
      (row.status = .canceledByIndexer ∨ row.status = .abandonedByIndexer) ∧
        ¬ (w.pinned.chain id).IsEnded)

/-- A snapshot has been dealt with, given that the accept of its agreement is applied in the case
`applied`.  What shows the agreement live leaves nothing to do or a chain check to run; an accept is
recorded on its row or carried by such a check, unless the row was closed without it. -/
structure Dealt (w : World) (applied : Prop) (x : AgreementStateSnapshot) : Prop where
  live : x.state = .accepted →
    w.CheckQueued x.agreementId ∨ w.Followed settledStatuses x.agreementId ∨ applied
  accept : x.acceptedAt ≠ 0 →
    w.AcceptStored x.agreementId ∨ w.CheckQueued x.agreementId ∨ applied ∨
      w.ClosedUnrecorded x.agreementId
  time : x.acceptedAt ≠ 0 → (w.chain x.agreementId).acceptedAt = some x.acceptedAt

end World

/-- The item is true of the chain as the listener has seen it, and an accept is one of an agreement
it read as open. -/
structure ItemOk (w : World) (item : ReconciliationItem) : Prop where
  made : ∃ snapshot agreement, item = Listener.reconciliationItem snapshot agreement
  accept : item.applyAccept = true → w.Followed openStatuses item.agreementId
  listed : item.applyAccept = true →
    ∃ row, (item.agreementId, row) ∈ w.pageListed ∧ row.status ∈ acceptFrom
  byIndexer : item.cancel = some .byIndexer → (w.pinned.chain item.agreementId).IsEnded
  byRequester : item.cancel = some .byRequester →
    (w.pinned.chain item.agreementId).WasAccepted → (w.pinned.chain item.agreementId).IsEnded

/-- When a statement on a row is made. -/
def UpdatePre (config : Config) (t : Tag) (w : World) (id : IndexingAgreementId)
    (row : AgreementRow) : RowUpdate → Prop
  | .markAsCanceledByRequester =>
    row.status.ending = true ∧ row.abandoned = false ∧ w.Dead id
  | .markAsAbandonedByIndexer => row.abandoned = true ∧ (w.chain id).IsEnded
  | .recordAcceptedAudit .. =>
    row.status.ending = true ∧ (w.chain id).WasAccepted ∧ (t = .chainListener ∨ w.CheckQueued id)
  | .recordAcceptAndCancelAudit .. =>
    row.status.ending = true ∧ (w.chain id).WasAccepted ∧ t = .chainListener
  | .markAcceptedEventEmitted => t = .chainListener ∧ w.Announced id
  | .markTerminatedEventEmitted => t = .chainListener ∧ ∃ listed remaining,
      (id, listed) ∈ w.terminatedListed ∧
      w.lastTerminated id = some (Listener.terminatedEvent config id listed remaining)
  | .markExpiredEventEmitted => t = .chainListener
  | .markAsExpired =>
    ∃ ts ∈ w.clocks, (row.terms.deadline : Int) < asI64 (ts - config.expirationGraceSecs)
  | _ => True

/-- The events that no agreement's lifecycle turns on. -/
def Event.isSignal : Event → Bool
  | .nIndexersUnavailable .. | .proposed .. => true
  | _ => false

def EmitPre (w : World) : Event → Prop
  | .accepted id .. => (w.chain id).WasAccepted
  | .terminated id .. => (∃ row, (id, row) ∈ w.terminatedListed) ∧
      ∀ row, w.row id = some row → row.terminatedEventEmittedAt = none
  | _ => True

def Pre (config : Config) (t : Tag) (w : World) : Op → Prop
  | .update id u => ∀ row, w.row id = some row → UpdatePre config t w id row u
  | .applyReconciliation id applyAccept cancel =>
    applyAccept = false ∧ cancel = some .byIndexer ∧ (w.chain id).IsEnded
  | .applyReconciliationBatch items =>
    t = .chainListener ∧ (items.map (·.agreementId)).Nodup ∧ ∀ item ∈ items, ItemOk w item
  | .register params replaces =>
    t = .reassess ∧ (∃ hash, params.termsVersionHash = some hash ∧ hash.length = 32) ∧
      ∀ old, replaces = some old → (w.row old).isSome = true
  | .deletePendingByNew new => ∃ row, w.row new = some row ∧ row.status ≠ .created
  | .deletePending _ old =>
    t = .chainListener ∧ ∀ row, w.row old = some row → row.status.active = false
  | .offerViaManager id deadline =>
    t = .submitOffer ∧ ∃ row, w.row id = some row ∧ deadline = row.terms.deadline ∧
      ∃ request, Job.submitOffer id request ∈ w.jobs
  | .push (.cancelRejectedAgreementOnChain id accept) =>
    t = .chainListener ∧ ∃ row, w.row id = some row ∧ row.status.closed = true ∧
      w.Carries id accept
  | .remember memory =>
    t = .chainListener ∧ (∀ change ∈ memory.liveChecks, w.CheckQueued change.1) ∧
      ∀ ts ∈ memory.lastPersistedTimestamp, ts ∈ w.clocks
  | .note (.pageDone _ snapshots unapplied) =>
    t = .chainListener ∧ ∀ x ∈ snapshots, x.agreementId ∉ unapplied →
      w.Dealt (x.agreementId ∈ w.acceptsApplied) x
  | .updateListenerState _ timestamp =>
    t = .chainListener ∧ ∀ ts ∈ timestamp, ts ∈ w.clocks ∨ ∃ head ∈ w.heads, ts ≤ head
  | .emit event => (t = .chainListener ∨ event.isSignal = true) ∧ EmitPre w event
  | .getChanged .. | .note _ | .select (.byIds _)
  | .select (.pendingAcceptedEmission _) | .select (.pendingExpiredEmission _) =>
    t = .chainListener
  | .select (.pendingTerminatedEmission _) =>
    t = .chainListener ∧ ∀ id ∈ w.acceptedListed, w.Announced id
  | _ => True

/-- The discipline that keeps the world consistent. -/
def consistency (config : Config) : Concurrent.Discipline World Tag Op where
  inv := World.Consistent
  pre := Pre config
  rely t w w' := w.Grows w' ∧ (t = .chainListener → w.Quiet w')

end Dipper
