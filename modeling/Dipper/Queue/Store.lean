import Dipper.Queue
import Mathlib.Data.Int.Order.Basic
import Mathlib.Data.List.AList
import Mathlib.Data.List.MinMax
import Mathlib.Data.Prod.Lex

/-! The table of jobs, and the worker loops that take them off it.  A loop pops a job in a
transaction that stays open, with the job's row locked, until the loop has settled what became of
the job; a loop that dies, or whose statement fails, has its transaction rolled back.  Times and
delays are in nanoseconds. -/

namespace Dipper

namespace Pgmq

abbrev JobId : Type := Nat

abbrev LoopId : Type := Nat

inductive JobPriority : Type
  | sweep
  | background
  | interactive
  deriving DecidableEq, Repr

def JobPriority.toInt : JobPriority → Int
  | .sweep => -1
  | .background => 0
  | .interactive => 1

def maxI32 : Nat := 2147483647

def maxU32 : Nat := 4294967295

/-- A number of attempts, of which there is always a first. -/
abbrev Attempts : Type := { n : Nat // 0 < n }

def Attempts.ofRetries (value : Nat) : Attempts :=
  ⟨min (min (value + 1) maxU32) maxI32, by unfold maxU32 maxI32; omega⟩

structure JobBuilder where
  desc : Job
  maxAttempts : Option Attempts := none
  scheduledFor : Option Nat := none
  priority : JobPriority := .background

def JobBuilder.maxRetries (job : JobBuilder) (value : Nat) : JobBuilder :=
  { job with maxAttempts := some (.ofRetries value) }

/-- The queue's own limit: a job is tried 3 times. -/
def queueMaxAttempts : Attempts := .ofRetries 2

structure StoredJob extends QueueRow where
  priority : JobPriority
  createdAt : Nat
  scheduledFor : Nat
  deriving DecidableEq, Repr

/-- The row of a new job, by a transaction that started at `startedAt`. -/
def JobBuilder.row (job : JobBuilder) (startedAt : Nat) : StoredJob where
  job := job.desc
  maxAttempts := (job.maxAttempts.getD queueMaxAttempts).1
  priority := job.priority
  createdAt := startedAt
  scheduledFor := job.scheduledFor.getD startedAt

namespace StoredJob

/-- Put a job back for a later time; one that counts its last attempt has failed, and stays where it
is. -/
def requeue (row : StoredJob) (scheduledFor : Nat) (countAttempt : Bool) : StoredJob :=
  { row with
    toQueueRow := row.toQueueRow.requeue countAttempt
    scheduledFor :=
      if !countAttempt || row.attemptCount + 1 < row.maxAttempts then scheduledFor
      else row.scheduledFor }

def markAsFailed (row : StoredJob) (scheduledFor : Nat) : StoredJob := row.requeue scheduledFor true

def reschedule (row : StoredJob) (scheduledFor : Nat) : StoredJob := row.requeue scheduledFor false

end StoredJob

def calculateBackoffDelay (baseDelay : Nat) (attempt : Nat) : Nat :=
  if attempt < 5 then Duration.saturatingMul baseDelay (2 ^ attempt) else Duration.fromSecs 300

def jobTimeoutRetryBaseDelay : Nat := Duration.fromSecs 30

/-- A handler that is cut off by the timeout has failed and is retried. -/
def runJobWithTimeout : Option (Except JobError Unit) → Except JobError Unit
  | some result => result
  | none => .error (.retryable jobTimeoutRetryBaseDelay)

/-- What a worker loop makes of a job by its result, at the loop's own time: the row it leaves, if
any. -/
def StoredJob.settle (row : StoredJob) (clock : Nat) : Except JobError Unit → Option StoredJob
  | .ok _ => none
  | .error (.retryable baseDelay) =>
    some (row.markAsFailed (clock + calculateBackoffDelay baseDelay row.attemptCount))
  | .error (.deferred delay) => some (row.reschedule (clock + delay))
  | .error .fatal => none

/-- The table as it is committed, the job whose row each loop has locked, and the ids that have been
given out.  A popped job's running status is seen by its own transaction only. -/
structure QueueState where
  now : Nat
  rows : AList fun _ : JobId => StoredJob
  held : AList fun _ : LoopId => JobId
  issued : List JobId

namespace QueueState

def empty (now : Nat) : QueueState := ⟨now, ∅, ∅, []⟩

def locked (s : QueueState) (id : JobId) : Bool := s.held.entries.any fun hold => hold.2 = id

def due (s : QueueState) (id : JobId) (row : StoredJob) : Bool :=
  row.status = .queued && row.scheduledFor ≤ s.now && !s.locked id

/-- Keys are compared part by part. -/
instance keyOrder : LinearOrder (Int ×ₗ Nat ×ₗ Nat) :=
  @Prod.Lex.instLinearOrder Int (Nat ×ₗ Nat) Int.instLinearOrder
    (@Prod.Lex.instLinearOrder Nat Nat Nat.instLinearOrder Nat.instLinearOrder)

instance keyPreorder : Preorder (Int ×ₗ Nat ×ₗ Nat) := keyOrder.toPartialOrder.toPreorder

/-- Highest priority first, then insertion time, then the id. -/
def popKey (entry : (_ : JobId) × StoredJob) : Int ×ₗ Nat ×ₗ Nat :=
  toLex (-entry.2.priority.toInt, toLex (entry.2.createdAt, entry.1))

def nextJob (s : QueueState) : Option JobId :=
  ((s.rows.entries.filter fun entry => s.due entry.1 entry.2).argmin popKey).map (·.1)

def pop (s : QueueState) (loop : LoopId) : QueueState :=
  match s.nextJob with
  | some id => { s with held := s.held.insert loop id }
  | none => s

def rollback (s : QueueState) (loops : List LoopId) : QueueState :=
  { s with held := loops.foldl (fun held loop => held.erase loop) s.held }

/-- Write what a loop leaves of the job it holds, and end its transaction. -/
def commit (s : QueueState) (loop : LoopId) (id : JobId) (left : Option StoredJob) : QueueState :=
  { s with
    held := s.held.erase loop
    rows := match left with
      | some row => s.rows.insert id row
      | none => s.rows.erase id }

end QueueState

/-- What happens to the queue.  A handler's result is `none` if it is cut off by the timeout, and a
settlement lands unless its statement or its commit fails. -/
inductive QueueEvent : Type
  | push (id : JobId) (startedAt : Nat) (job : JobBuilder)
  | pop (loop : LoopId)
  | settle (loop : LoopId) (clock : Nat) (result : Option (Except JobError Unit)) (lands : Bool)
  | crash (loops : List LoopId)
  | clock (now : Nat)

/-- The queue after an event, if that can happen: ids are never given out twice, and a loop pops only
once it has settled its last job. -/
def QueueState.step (s : QueueState) : QueueEvent → Option QueueState
  | .push id startedAt job =>
    if id ∉ s.issued ∧ startedAt ≤ s.now then
      some { s with rows := s.rows.insert id (job.row startedAt), issued := id :: s.issued }
    else none
  | .pop loop => if s.held.lookup loop = none then some (s.pop loop) else none
  | .settle loop clock result lands =>
    (s.held.lookup loop).bind fun id =>
      (s.rows.lookup id).map fun row =>
        if lands then s.commit loop id (row.settle clock (runJobWithTimeout result))
        else s.rollback [loop]
  | .crash loops => some (s.rollback loops)
  | .clock now => if s.now ≤ now then some { s with now := now } else none

/-- A run from the empty queue, with the events and the states they happened in. -/
inductive Ran (now : Nat) : List (QueueState × QueueEvent) → QueueState → Prop
  | start : Ran now [] (.empty now)
  | step {history : List (QueueState × QueueEvent)} {s s' : QueueState} {e : QueueEvent} :
      Ran now history s → s.step e = some s' → Ran now (history ++ [(s, e)]) s'

end Pgmq

end Dipper
