import Dipper.Concurrent.Trace
import Dipper.Listener.Drain

/-! Runs of drains over a subgraph that changes between them, with what each drain did.  A row that
changes does so at a block the next drain still reads, as a reorganisation does within the reorg
buffer. -/

namespace Dipper

open Concurrent

/-- What the other services leave alone while a drain runs. -/
structure World.Steady (w w' : World) : Prop where
  indexed : w'.indexed = w.indexed
  pinned : w'.pinned = w.pinned
  listenerState : w'.listenerState = w.listenerState

/-- The change the listener has checked on the chain once. -/
def AgreementStateSnapshot.change (s : AgreementStateSnapshot) : IndexingAgreementId × Nat :=
  (s.agreementId, s.lastStateChangeBlock)

/-- The chain check of an agreement that dipper ended and the subgraph shows accepted. -/
def AgreementStateSnapshot.liveCheck (s : AgreementStateSnapshot) : Job :=
  .cancelRejectedAgreementOnChain s.agreementId
    (if s.acceptedAt ≠ 0 then some ⟨s.acceptedAt, s.acceptedTx⟩ else none)

namespace Listener

/-- The listener between two drains: its memory, the world, the highest head the subgraph has
reported so far and the drains until now. -/
structure Polling where
  memory : ListenerMemory
  world : World
  highestHead : Nat
  drains : List (List (Action World Op))

namespace Polling

def rows (p : Polling) : List AgreementStateSnapshot := p.world.indexed.graph.rows

/-- The position the next drain starts reading from. -/
def start (config : Config) (p : Polling) : Cursor :=
  effectiveCursor config.reorgBufferBlocks p.memory.cursor

def persisted (p : Polling) : Option Cursor := p.world.listenerState.map (·.1)

/-- A drain, or a change of the world between two drains.  A row that is added, moved or rewritten
gets a block above the highest head reported less the reorg buffer; no row changes while `still`
holds of the listener's memory. -/
inductive Step (config : Config) (allow : World → Op → Choice → Prop)
    (still : ListenerMemory → Prop) : Polling → Polling → Prop
  | drain {p : Polling} {memory : ListenerMemory} {result : Except Unit DrainOutcome}
      {tr : List (Action World Op)} {w' : World} :
      (drainOnce config p.memory).Runs (World.Performs allow) World.Steady p.world tr
        (some (memory, result)) w' →
      Step config allow still p
        ⟨memory, w', max p.highestHead memory.lastSubgraphHead, p.drains ++ [tr]⟩
  | change {p : Polling} {w' : World} : w'.listenerState = p.world.listenerState →
      (∀ s ∈ w'.indexed.graph.rows, s ∈ p.rows ∨
        p.highestHead < s.lastStateChangeBlock + config.reorgBufferBlocks) →
      (still p.memory → w'.indexed.graph.rows = p.rows) →
      Step config allow still p { p with world := w' }

abbrev Reaches (config : Config) (allow : World → Op → Choice → Prop)
    (still : ListenerMemory → Prop) : Polling → Polling → Prop :=
  Relation.ReflTransGen (Step config allow still)

end Polling

section Records

variable (tr : List (Action World Op))

def Noted (n : Note) : Prop := ∃ e ∈ tr, e.op = .note n

def ReadClock (now : Nat) : Prop := ∃ e ∈ tr, e.op = .now ∧ e.before.now = now

/-- The statement was run on the row and committed. -/
def UpdateCommitted (id : IndexingAgreementId) (u : RowUpdate) : Prop :=
  ∃ e ∈ tr, e.op = .update id u ∧ ∃ x, e.before.runUpdate id u = (e.after, .ok x)

def BatchCommitted (item : ReconciliationItem) : Prop :=
  ∃ e ∈ tr, ∃ items, e.op = .applyReconciliationBatch items ∧ item ∈ items ∧
    ∃ outcomes, e.before.runBatch items = (e.after, .ok outcomes)

/-- A page's read of the registry succeeded and gave the agreement of `id`, or none. -/
def Listed (id : IndexingAgreementId) (agreement : Option IndexingAgreement) : Prop :=
  ∃ e ∈ tr, ∃ ids rows choice, e.op = .select (.byIds ids) ∧ id ∈ ids ∧
    e.before.runSelect (.byIds ids) choice = some (.ok rows, e.after) ∧
    agreement = (Registry.agreements rows).find? fun a => a.id = id

/-- The chain check of the change was queued, for the row of the subgraph that has it. -/
def CheckQueuedFor (change : IndexingAgreementId × Nat) : Prop :=
  ∃ e ∈ tr, ∃ s ∈ e.before.indexed.graph.rows, s.change = change ∧
    e.op = .push s.liveCheck ∧
    e.after = { e.before with jobs := e.before.jobs ++ [s.liveCheck] }

/-- The writes a snapshot asks of its agreement beside the batch's: the accept of one dipper is
cancelling, and the accept and end of one it had ended. -/
def AuditsUpdated (x : AgreementStateSnapshot) (a : IndexingAgreement) : Prop :=
  (a.status = .cancelling → x.state.reachedAccepted = true → x.acceptedAt ≠ 0 →
    UpdateCommitted tr a.id (.recordAcceptedAudit x.acceptedAt x.acceptedTx)) ∧
  (appliesAccept x a = false → cancelKind x a = none → a.status.isTerminalCancel = true →
    x.state.isCanceled = true → x.acceptedAt ≠ 0 →
    UpdateCommitted tr a.id (.recordAcceptAndCancelAudit x.acceptedAt x.acceptedTx x.canceledAt
      (Address.text x.canceledBy) (some x.canceledTx)))

/-- Each write the snapshot asks of its agreement, as it was read, has committed, and the chain
check it asks for is one of the `checked`; it asks nothing of one that is not dipper's. -/
def WritesCommitted (checked : IndexingAgreementId × Nat → Prop) (x : AgreementStateSnapshot) :
    Prop :=
  ∃ agreement, Listed tr x.agreementId agreement ∧ ∀ a ∈ agreement, AuditsUpdated tr x a ∧
    (endedButAccepted x a = true → checked x.change) ∧
    (appliesAccept x a = true ∨ (cancelKind x a).isSome = true →
      BatchCommitted tr (reconciliationItem x a))

/-- The snapshot was on a page that was dealt with; `unapplied` names those that failed there. -/
def OnPage (x : AgreementStateSnapshot) (unapplied : List IndexingAgreementId) : Prop :=
  ∃ since snapshots, Noted tr (.pageDone since snapshots unapplied) ∧ x ∈ snapshots

/-- The row, as it stands, failed in a page of the drain, at `now` by the drain's clock. -/
def FailedIn (s : AgreementStateSnapshot) (now : Nat) : Prop :=
  ∃ unapplied, OnPage tr s unapplied ∧ s.agreementId ∈ unapplied ∧ ReadClock tr now

/-- The row, as it stands, was among the changes that an alert told were skipped. -/
def SkippedIn (s : AgreementStateSnapshot) : Prop :=
  ∃ unapplied, OnPage tr s unapplied ∧ s.agreementId ∈ unapplied ∧
    ∃ block count ids, Noted tr (.changesSkipped block count ids unapplied)

end Records

/-- The row, as it stands, was prepared and applied without error in a page of a drain.  Its chain
check may have been queued for the same change in another. -/
def Applied (drains : List (List (Action World Op))) (s : AgreementStateSnapshot) : Prop :=
  ∃ tr ∈ drains, ∃ unapplied, OnPage tr s unapplied ∧ s.agreementId ∉ unapplied ∧
    WritesCommitted tr (fun change => ∃ tr' ∈ drains, CheckQueuedFor tr' change) s

/-- The row failed in two drains, by their clocks as far apart as the cursor is held at most. -/
def FailedTwice (drains : List (List (Action World Op))) (s : AgreementStateSnapshot) : Prop :=
  ∃ tr tr' now now', [tr, tr'].Sublist drains ∧ FailedIn tr s now ∧ FailedIn tr' s now' ∧
    now + maxCursorHold ≤ now'

end Listener

end Dipper
