import Dipper.ChainClient.Client
import Dipper.Subgraph
import Mathlib.Data.Finset.Basic

/-! The escrow reconciler: sweeps that drop ended agreements from the agreement manager, withdraw
finished thaws and rebalance each provider once in a while.  A stop request ends the service
wherever it is, which is a run cut short; what a sweep keeps for the next is in memory only. -/

namespace Dipper

namespace Escrow

open AlloyClient (ClientError)

abbrev AgreementId : Type := Fin (2 ^ 128)

structure EscrowAccount where
  balance : Nat
  tokensThawing : Nat
  thawEndTimestamp : Nat
  deriving DecidableEq, Repr

/-- The reads of the manager, the collector and the chain, and the transactions sent. -/
inductive Op : Type
  | getProviderCount
  | getProviderAt (index : Nat)
  | latestBlockTimestamp
  | getEscrowAccount (provider : Address)
  | getAgreementCount (provider : Address)
  | getAgreementAt (provider : Address) (index : Nat)
  | getMaxNextClaim (id : AgreementId)
  | reconcileAgreement (id : AgreementId)
  | reconcileProvider (provider : Address)
  deriving DecidableEq, Repr

abbrev Res : Op → Type
  | .getProviderCount | .latestBlockTimestamp | .getAgreementCount _ | .getMaxNextClaim _ =>
    Except ClientError Nat
  | .getProviderAt _ => Except ClientError Address
  | .getEscrowAccount _ => Except ClientError EscrowAccount
  | .getAgreementAt .. => Except ClientError AgreementId
  | .reconcileAgreement _ | .reconcileProvider _ => Except ClientError (Option TxHash)

abbrev EscrowAct (α : Type) : Type := Concurrent.Prog Op Res α

def call (o : Op) : EscrowAct (Res o) := Concurrent.Prog.perform o

/-- The answer to a call, for runs whose answers are given one by one. -/
def answered {σ : Type} (s : σ) (o : Op) (answer : (o : Op) × Res o) : Option (Res o × σ) :=
  if h : answer.1 = o then some (h ▸ answer.2, s) else none

/-! The chain client's reads. -/

structure TrackedProviders where
  providers : List Address
  complete : Bool
  deriving DecidableEq, Repr

/-- Read `remaining` entries of the provider list from `index` on, after those read so far. -/
def readProviders : (remaining index : Nat) → TrackedProviders → EscrowAct TrackedProviders
  | 0, _, tracked => return tracked
  | remaining + 1, index, tracked => do
    match ← call (.getProviderAt index) with
    | .ok provider =>
      if provider ∈ tracked.providers then
        readProviders remaining (index + 1) { tracked with complete := false }
      else
        readProviders remaining (index + 1)
          { tracked with providers := tracked.providers ++ [provider] }
    | .error _ => return { tracked with complete := false }

def countOf (what : String) (count : Nat) : Except ClientError Nat :=
  if count ≤ maxU64 then .ok count
  else .error (.rpcError ("implausible " ++ what ++ " count " ++ toString count))

def trackedProviders : EscrowAct (Except ClientError TrackedProviders) := do
  match ← call .getProviderCount with
  | .error e => return .error e
  | .ok count =>
    match countOf "provider" count with
    | .error e => return .error e
    | .ok count => return .ok (← readProviders count 0 ⟨[], true⟩)

def trackedAgreementCount (provider : Address) : EscrowAct (Except ClientError UInt64) := do
  match ← call (.getAgreementCount provider) with
  | .error e => return .error e
  | .ok count => return (countOf "agreement" count).map UInt64.ofNat

/-! The rebalances. -/

structure EscrowReconcilerConfig where
  interval : Nat
  batchSize : Int
  rebalanceInterval : Nat
  agreementsPerSweep : UInt64

inductive Reason : Type
  | thawFinished
  | rebalance
  deriving DecidableEq, Repr

structure RebalanceSchedule where
  coveredUntil : Option Nat := none
  owed : Finset Address := ∅
  deriving DecidableEq

namespace RebalanceSchedule

/-- The chain time, after the first and up to the second, whose slots a sweep hands out. -/
def window (schedule : RebalanceSchedule) (now interval : Nat) : Nat × Nat :=
  let start := schedule.coveredUntil.getD (now - interval)
  (start, max now start)

def settle (schedule : RebalanceSchedule) (succeeded failed : List Address) : RebalanceSchedule :=
  { schedule with owed := (schedule.owed.filter fun p => p ∉ succeeded) ∪ failed.toFinset }

end RebalanceSchedule

def thawFinished (account : EscrowAccount) (now : Nat) : Bool :=
  account.tokensThawing > 0 && account.thawEndTimestamp < now

/-- Whether the provider's slot falls in the chain time after `start` and up to `stop`.  Its offset
into the period is the number of its first eight bytes. -/
def rebalanceDue (provider : Address) (start stop period : Nat) : Bool :=
  if period = 0 ∨ stop ≤ start then false
  else
    let offset := provider.val / 2 ^ 96 % period
    saturatingAdd stop offset / period ≠ saturatingAdd start offset / period

structure DueProviders where
  thawed : List (Address × Reason) := []
  rebalances : List (Address × Reason) := []
  owed : Finset Address

/-- Mark each provider whose slot is in the window owed, and pick those to reconcile. -/
def markDue (period now start stop : Nat) :
    List Address → DueProviders → EscrowAct DueProviders
  | [], found => return found
  | provider :: rest, found => do
    let found :=
      if rebalanceDue provider start stop period then
        { found with owed := insert provider found.owed }
      else found
    match ← call (.getEscrowAccount provider) with
    | .ok account =>
      if thawFinished account now then
        markDue period now start stop rest
          { found with thawed := found.thawed ++ [(provider, .thawFinished)] }
      else if provider ∈ found.owed then
        markDue period now start stop rest
          { found with rebalances := found.rebalances ++ [(provider, .rebalance)] }
      else markDue period now start stop rest found
    | .error _ => markDue period now start stop rest found

def cap {α : Type} (items : List α) (limit : Option Nat) : List α :=
  match limit with
  | some limit => items.take limit
  | none => items

/-- What a sweep reads of the providers: the window it handed the slots of out, those to reconcile,
and the schedule with those owed marked. -/
structure DueList where
  window : Nat × Nat
  due : List (Address × Reason)
  schedule : RebalanceSchedule
  deriving DecidableEq

def providersDue (config : EscrowReconcilerConfig) (tracked : TrackedProviders)
    (limit : Option Nat) (schedule : RebalanceSchedule) :
    EscrowAct (Except ClientError DueList) := do
  match ← call .latestBlockTimestamp with
  | .error e => return .error e
  | .ok now =>
    let window := schedule.window now config.interval
    let owed :=
      if tracked.complete then schedule.owed.filter fun p => p ∈ tracked.providers
      else schedule.owed
    let found ← markDue config.rebalanceInterval now window.1 window.2 tracked.providers
      { owed := owed }
    return .ok {
      window := window
      due := cap (found.thawed ++ found.rebalances) limit
      schedule := {
        coveredUntil := if tracked.complete then some window.2 else schedule.coveredUntil
        owed := found.owed } }

/-- The most transactions a sweep may send; no limit unless it is positive. -/
def sweepBudget (batchSize : Int) : Option Nat :=
  if 0 < batchSize then some batchSize.toNat else none

/-- Reconcile each distinct provider; those that went through and those that failed. -/
def reconcileProviders : List (Address × Reason) → (seen : Finset Address) →
    (succeeded failed : List Address) → EscrowAct (List Address × List Address)
  | [], _, succeeded, failed => return (succeeded, failed)
  | (provider, _) :: rest, seen, succeeded, failed => do
    if provider ∈ seen then reconcileProviders rest seen succeeded failed
    else
      match ← call (.reconcileProvider provider) with
      | .ok _ => reconcileProviders rest (insert provider seen) (succeeded ++ [provider]) failed
      | .error _ => reconcileProviders rest (insert provider seen) succeeded (failed ++ [provider])

/-! The ended agreements. -/

def readCounts : List Address → EscrowAct (List (Address × UInt64))
  | [] => return []
  | provider :: rest => do
    match ← trackedAgreementCount provider with
    | .ok count => return (provider, count) :: (← readCounts rest)
    | .error _ => readCounts rest

/-- The number of agreements of all the providers, as far as a `u64` goes: the sum wraps. -/
def totalOf (counts : List (Address × UInt64)) : UInt64 :=
  counts.foldl (fun total entry => total + entry.2) 0

/-- The provider and index of a position when the providers' agreements are laid end to end; none
is the source's unreachable case. -/
def locate : List (Address × UInt64) → (pos : UInt64) → Option (Address × UInt64)
  | [], _ => none
  | (provider, count) :: rest, pos =>
    if pos < count then some (provider, pos) else locate rest (pos - count)

/-- The loop over the positions, `remaining` more of them; what it found and how many it checked. -/
def checkPositions (counts : List (Address × UInt64)) (total start : UInt64)
    (maxEnded : Option Nat) :
    (remaining : Nat) → (checked : UInt64) → (ended : List AgreementId) →
    (seen : Finset AgreementId) → EscrowAct (Option (List AgreementId × UInt64))
  | 0, checked, ended, _ => return some (ended, checked)
  | remaining + 1, checked, ended, seen => do
    if maxEnded.any fun limit => limit ≤ ended.length then return some (ended, checked)
    match locate counts ((start + checked) % total) with
    | none => return none
    | some (provider, index) =>
      match ← call (.getAgreementAt provider index.toNat) with
      | .error _ => checkPositions counts total start maxEnded remaining (checked + 1) ended seen
      | .ok id =>
        if id ∈ seen then
          checkPositions counts total start maxEnded remaining (checked + 1) ended seen
        else
          match ← call (.getMaxNextClaim id) with
          | .ok claim =>
            checkPositions counts total start maxEnded remaining (checked + 1)
              (if claim = 0 then ended ++ [id] else ended) (insert id seen)
          | .error _ =>
            checkPositions counts total start maxEnded remaining (checked + 1) ended
              (insert id seen)

/-- The ended agreements a sweep finds, at most `maxEnded`, and the cursor after it; none if the
unreachable case is reached. -/
def endedAgreements (providers : List Address) (cursor limit : UInt64) (maxEnded : Option Nat) :
    EscrowAct (Option (List AgreementId × UInt64)) := do
  let counts ← readCounts providers
  let total := totalOf counts
  if total = 0 ∨ limit = 0 then return some ([], cursor)
  let start := cursor % total
  match ← checkPositions counts total start maxEnded (min limit total).toNat 0 [] ∅ with
  | none => return none
  | some (ended, checked) => return some (ended, (start + checked) % total)

/-- Reconcile each ended agreement; failures are left to later sweeps. -/
def releaseAgreements (ended : List AgreementId) : EscrowAct Unit :=
  Concurrent.Prog.forEach ended fun id => do
    let _ ← call (.reconcileAgreement id)
    return ()

/-! The sweeps. -/

structure SweepState where
  schedule : RebalanceSchedule := {}
  agreementCursor : UInt64 := 0
  deriving DecidableEq

/-- What a sweep did: the provider list it read, the window and the schedule with the slots handed
out, if it got there, and the providers whose reconcile went through. -/
structure SweepReport where
  tracked : Option TrackedProviders := none
  handedOut : Option DueList := none
  succeeded : List Address := []
  deriving DecidableEq

/-- One sweep; none if the service panics. -/
def sweep (config : EscrowReconcilerConfig) (state : SweepState) :
    EscrowAct (Option (SweepState × SweepReport)) := do
  match ← trackedProviders with
  | .error _ => return some (state, {})
  | .ok tracked =>
    let budget := sweepBudget config.batchSize
    match ← endedAgreements tracked.providers state.agreementCursor config.agreementsPerSweep
        budget with
    | none => return none
    | some (ended, cursor) =>
      let state := { state with agreementCursor := cursor }
      let left := budget.map (· - ended.length)
      releaseAgreements ended
      if left = some 0 then return some (state, { tracked := some tracked })
      match ← providersDue config tracked left state.schedule with
      | .error _ => return some (state, { tracked := some tracked })
      | .ok list =>
        let (succeeded, failed) ← reconcileProviders list.due ∅ [] []
        return some ({ state with schedule := list.schedule.settle succeeded failed },
          { tracked := some tracked, handedOut := some list, succeeded := succeeded })

end Escrow

end Dipper
