import Dipper.Concurrent.Trace
import Dipper.Registry.StateMachine
import Dipper.Reassess
import Dipper.Services

/-! The worker's queue and what a worker loop does with a job: it runs the job's handler under a
timeout and takes the job off the queue, or puts it back.  The job's row is held in a transaction
meanwhile, so a worker that dies leaves the job as it was. -/

namespace Dipper

open Concurrent

/-- A job is queued until it is removed, or has failed for good and is never run again. -/
inductive JobStatus : Type
  | queued
  | failed
  deriving DecidableEq, Repr

structure QueueRow where
  job : Job
  maxAttempts : Nat := 3
  attemptCount : Nat := 0
  status : JobStatus := .queued
  deriving DecidableEq, Repr

/-- Put a job back; one that counts its last attempt has failed. -/
def QueueRow.requeue (countAttempt : Bool) (row : QueueRow) : QueueRow :=
  if countAttempt then
    { row with
      attemptCount := row.attemptCount + 1
      status := if row.attemptCount + 1 ≥ row.maxAttempts then .failed else .queued }
  else { row with status := .queued }

def processJob (config : Config) : Job → Act (Except JobError Unit)
  | .reassessIndexingRequest request => Reassess.handle config request
  | .sendIndexingAgreementProposal id request => SendProposal.handle id request
  | .cancelRejectedAgreementOnChain id accept => CancelRejected.handle id accept
  | .submitOffer id _ => SubmitOffer.handle id

/-- What the worker loop makes of a handler's result: the row it leaves, if any. -/
def QueueRow.after (row : QueueRow) : Except JobError Unit → Option QueueRow
  | .ok _ => none
  | .error (.retryable _) => some (row.requeue true)
  | .error (.deferred _) => some (row.requeue false)
  | .error .fatal => none

/-- What can become of the row after an attempt that returned, or was cut short by the timeout or
by the worker's end.  The row stays as it was where the queue's own statement fails. -/
def QueueRow.next (row : QueueRow) : Option (Except JobError Unit) → List (Option QueueRow)
  | some r => [row.after r, some row]
  | none => [some (row.requeue true), some row]

/-- The world after steps of others: no agreement's row goes away, and each only grows. -/
def World.RowsGrow (w w' : World) : Prop :=
  ∀ id row, w.row id = some row → ∃ row', w'.row id = some row' ∧ RowGrows row row'

/-- The life of a job on the queue, with all that its attempts did, among the steps of others.  Its
attempts may be cut short where `cut` allows it. -/
inductive Life (config : Config) (allow : World → Op → Choice → Prop)
    (cut : List (Action World Op) → Prop) :
    QueueRow → World → List (Action World Op) → Option QueueRow → World → Prop
  | waits {row : QueueRow} {w w' : World} : w.RowsGrow w' → Life config allow cut row w [] row w'
  | leaves {row : QueueRow} {w w' : World} {tr : List (Action World Op)}
      {out : Option (Except JobError Unit)} : row.status = .queued →
      (processJob config row.job).Runs (World.Performs allow) World.RowsGrow w tr out w' →
      (out = none → cut tr) → none ∈ row.next out → Life config allow cut row w tr none w'
  | again {row row' : QueueRow} {last : Option QueueRow} {w w1 w' : World}
      {tr tr' : List (Action World Op)} {out : Option (Except JobError Unit)} :
      row.status = .queued →
      (processJob config row.job).Runs (World.Performs allow) World.RowsGrow w tr out w1 →
      (out = none → cut tr) → some row' ∈ row.next out →
      Life config allow cut row' w1 tr' last w' → Life config allow cut row w (tr ++ tr') last w'
  /-- A reassessment waits for the lock that another one holds. -/
  | busy {row : QueueRow} {last : Option QueueRow} {w w' : World} {tr : List (Action World Op)}
      {request : IndexingRequestId} : row.status = .queued →
      row.job = .reassessIndexingRequest request →
      Life config allow cut (row.requeue false) w tr last w' → Life config allow cut row w tr last w'

/-- The job is no longer on the queue, or never runs again. -/
def HasLeft : Option QueueRow → Prop
  | none => True
  | some row => row.status = .failed

end Dipper
