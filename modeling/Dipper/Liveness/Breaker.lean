import Dipper.World

/-! The liveness check's judgement of an agreement: how long its indexer may go without progress,
and the breaker that holds agreements back while so many indexers are unreachable at once that the
fault is likely dipper's own.  Times are in nanoseconds. -/

namespace Dipper

namespace Liveness

def nanosPerDay : Int := 86400 * 10 ^ 9

/-- What the check is configured with; `trips` is the test whether so many of the indexers checked
are unreachable that the breaker trips. -/
structure CheckerConfig where
  maxToleranceDays : Nat
  trips : (checked unreachable : Nat) → Bool

abbrev ActiveCounts : Type := List (DeploymentId × Nat)

def toleranceDuration (deploymentId : DeploymentId) (activeCounts : ActiveCounts)
    (maxToleranceDays : Nat) : Int :=
  let count := (activeCounts.lookup deploymentId).getD 1
  let days := max (min (count % 2 ^ 32) maxToleranceDays) 1
  days * nanosPerDay

structure HeldSpan where
  start : Int
  stop : Int
  deriving DecidableEq, Repr

/-- How a cycle treats the agreements of an indexer it couldn't reach. -/
inductive UnreachablePolicy : Type
  | hold
  | judge (held : List HeldSpan) (maxGrace : Int)
  deriving DecidableEq, Repr

/-- How much of the span is past `at'`. -/
def HeldSpan.since (span : HeldSpan) (at' : Int) : Int := max (span.stop - max span.start at') 0

/-- The time held that is left out of the time since `at'`. -/
def heldSince (held : List HeldSpan) (at' : Int) : Int := (held.map (·.since at')).sum

/-- When an unreachable indexer's agreement counts its time without progress from. -/
def UnreachablePolicy.progressClock (policy : UnreachablePolicy) (lastProgressAt : Option Int) :
    Option Int :=
  match policy with
  | .hold => lastProgressAt
  | .judge held maxGrace => lastProgressAt.map fun at' => at' + min (heldSince held at') maxGrace

def unreachableClearCycles : Nat := 3

/-- How often the alert repeats while the breaker stays tripped: six hours. -/
def unreachableAlertRepeat : Int := 6 * 3600 * 10 ^ 9

structure UnreachableBreaker where
  trippedSince : Option Int := none
  quietCycles : Nat := 0
  held : List HeldSpan := []
  alertedAt : Option Int := none
  deriving DecidableEq, Repr

/-- What a cycle found, and when: how many indexers it checked and how many of them were
unreachable. -/
structure Cycle where
  checked : Nat
  unreachable : Nat
  now : Int
  deriving DecidableEq, Repr

namespace UnreachableBreaker

def noteTrip (b : UnreachableBreaker) (now : Int) : UnreachableBreaker :=
  let b := { b with quietCycles := 0 }
  if b.trippedSince.isNone then { b with trippedSince := some now, alertedAt := none } else b

def noteQuietCycle (b : UnreachableBreaker) : UnreachableBreaker :=
  let b := { b with quietCycles := b.quietCycles + 1 }
  if b.quietCycles < unreachableClearCycles then b
  else { b with trippedSince := none, quietCycles := 0 }

def reportHold (b : UnreachableBreaker) (now : Int) : UnreachableBreaker :=
  if b.alertedAt.all fun at' => unreachableAlertRepeat ≤ now - at' then
    { b with alertedAt := some now }
  else b

def giveUp (b : UnreachableBreaker) (now maxHold : Int) : UnreachableBreaker :=
  match b.trippedSince with
  | none => b
  | some since =>
    if b.alertedAt.any fun at' => maxHold < at' - since then b
    else { b with alertedAt := some now }

/-- The spans with the trip that began at `since` holding at `now`. -/
def holdSpan (held : List HeldSpan) (since now : Int) : List HeldSpan :=
  match held.getLast? with
  | some span =>
    if span.start = since then held.dropLast ++ [{ span with stop := now }]
    else held ++ [⟨since, now⟩]
  | none => held ++ [⟨since, now⟩]

/-- How long one trip holds agreements back at most. -/
def maxHold (config : CheckerConfig) : Int := (max config.maxToleranceDays 1 : Nat) * nanosPerDay

/-- The breaker with the cycle's trip test noted. -/
def noteCycle (config : CheckerConfig) (b : UnreachableBreaker) (c : Cycle) :
    UnreachableBreaker :=
  if config.trips c.checked c.unreachable then b.noteTrip c.now
  else if b.trippedSince.isSome then b.noteQuietCycle
  else b

/-- How a cycle treats agreements whose indexer can't be reached; of the spans held only those that
`retain` keeps at the time are stored on. -/
def evaluateRetaining (retain : (now : Int) → HeldSpan → Bool) (config : CheckerConfig)
    (b : UnreachableBreaker) (c : Cycle) : UnreachablePolicy × UnreachableBreaker :=
  let b := b.noteCycle config c
  let b := { b with held := b.held.filter (retain c.now) }
  let judge := .judge b.held (maxHold config)
  match b.trippedSince with
  | none => (judge, b)
  | some since =>
    if c.now - since > maxHold config then (judge, b.giveUp c.now (maxHold config))
    else
      let b := b.reportHold c.now
      (.hold, { b with held := holdSpan b.held since c.now })

/-- Whether a span is recent enough to matter to any agreement. -/
def recent (config : CheckerConfig) (now : Int) (span : HeldSpan) : Bool :=
  now - span.stop ≤ maxHold config + maxHold config

def evaluate (config : CheckerConfig) (b : UnreachableBreaker) (c : Cycle) :
    UnreachablePolicy × UnreachableBreaker :=
  b.evaluateRetaining (recent config) config c

end UnreachableBreaker

inductive LivenessAction : Type
  | initializeTracking (block : Nat)
  | resetProgress (block : Nat)
  | withinTolerance
  | cancelAndReassess
  deriving DecidableEq, Repr

def decideLivenessAction (lastBlockHeight currentBlock : Option Nat) (lastProgressAt : Option Int)
    (now : Int) (deploymentId : DeploymentId) (activeCounts : ActiveCounts)
    (maxToleranceDays : Nat) : LivenessAction :=
  let threshold := toleranceDuration deploymentId activeCounts maxToleranceDays
  let judged : LivenessAction :=
    if now - lastProgressAt.getD now > threshold then .cancelAndReassess else .withinTolerance
  match lastBlockHeight, currentBlock with
  | none, some block => .initializeTracking block
  | none, none => .initializeTracking 0
  | some last, some current => if current ≠ last then .resetProgress current else judged
  | some _, none => judged

/-- What the check knows of an agreement. -/
structure Watched where
  deploymentId : DeploymentId
  lastBlockHeight : Option Nat
  lastProgressAt : Option Int
  deriving DecidableEq, Repr

inductive Decision : Type
  | recordProgress (block : Nat)
  | withinTolerance
  | heldBack
  | abandon
  deriving DecidableEq, Repr

/-- The cycle's decision on an agreement at `now`, given the block its indexer reports, if any, and
the cycle's policy if the indexer couldn't be reached. -/
def checkAgreement (config : CheckerConfig) (activeCounts : ActiveCounts) (agreement : Watched)
    (currentBlock : Option Nat) (unreachable : Option UnreachablePolicy) (now : Int) : Decision :=
  let lastProgressAt := match unreachable with
    | none => agreement.lastProgressAt
    | some policy => policy.progressClock agreement.lastProgressAt
  match decideLivenessAction agreement.lastBlockHeight currentBlock lastProgressAt now
    agreement.deploymentId activeCounts config.maxToleranceDays with
  | .initializeTracking block => .recordProgress block
  | .resetProgress block => .recordProgress block
  | .withinTolerance => .withinTolerance
  | .cancelAndReassess => if unreachable = some .hold then .heldBack else .abandon

end Liveness

end Dipper
