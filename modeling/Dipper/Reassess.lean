import Dipper.Worker
import Mathlib.Data.List.Sort

/-! Reassessment of an indexing request: the indexers IISA wants for it against those that have
agreements, new agreements offered first, each paired with an old one it replaces, and the old
ones with nothing to replace them cancelled. -/

namespace Dipper

namespace Reassess

/-- Olds kept from cancellation, one for each pairing lost to an addition withheld. -/
def reservedCancelCount (cancels totalAdds admittedAdds : Nat) : Nat :=
  min cancels totalAdds - min cancels admittedAdds

/-- Whether the offers in flight are so many that a request still growing has to wait. -/
def shouldDeferSaturated (globalInFlight : Nat) (globalCap : Option Nat)
    (numCandidates activeCount : Nat) : Bool :=
  globalCap.any fun cap => globalInFlight ≥ cap && numCandidates > activeCount

/-- The delay of a deferred pass, in 12 to 18 seconds by the bytes of the request's id. -/
def pacingDeferDelay (request : IndexingRequestId) : Nat :=
  Duration.fromSecs (12 + ((List.range 16).map fun i => request.val / 256 ^ i % 256).sum % 7)

/-- The candidates that may be offered to within the caps, and the number of those withheld. -/
def planCappedAdditions (candidates : List IndexerId) (inFlightPerIndexer : IndexerId → Nat)
    (globalInFlight : Nat) (perIndexerCap globalCap : Option Nat) : List IndexerId × Nat :=
  let admitted := (candidates.insertionSort (· ≤ ·)).foldl (fun admitted id =>
    if globalCap.any fun cap => globalInFlight + admitted.length ≥ cap then admitted
    else if perIndexerCap.any fun cap => inFlightPerIndexer id + admitted.count id ≥ cap then
      admitted
    else admitted ++ [id]) []
  (admitted, candidates.length - admitted.length)

/-- The clock of the deadline: the wall clock, or the chain's time where its defences are
bypassed. -/
def resolveDeadlineClock (config : Config) : Act (Except JobError Nat) := do
  if !config.bypassChainClockDefenses then return .ok (← nowSecs)
  match ← ChainClient.latestBlockTimestamp with
  | .ok ts => return .ok ts
  | .error _ =>
    if config.chainListenerChainId.isNone then return .ok (← nowSecs)
    match ← Registry.getChainListenerState with
    | .ok (some (_, some ts)) => return .ok ts
    | .ok _ => return .ok (← nowSecs)
    | .error _ => return .error (.retryable (Duration.fromSecs 5))

/-- What a pass reads before it asks IISA. -/
structure Baseline where
  numCandidates : Nat
  deploymentId : DeploymentId
  active : List IndexingAgreement
  held : List IndexerId
  inFlight : List IndexerId
  deriving DecidableEq, Repr

def Baseline.current (b : Baseline) : List IndexerId := (b.active.map (·.indexerId)).dedup

/-- The request's target as it stands, cancelled requests wanting none, and its agreements; nothing
for a request that does not exist. -/
def readBaseline (request : IndexingRequestId) : Act (Except JobError (Option Baseline)) := do
  match ← Registry.getIndexingRequestById request with
  | .error _ => return .error .fatal
  | .ok none => return .ok none
  | .ok (some stored) =>
    let numCandidates := if stored.status = .opened then stored.numCandidates else 0
    match ← Registry.listAgreements (.activeOfRequest request) with
    | .error _ => return .error .fatal
    | .ok active =>
      match ← Registry.listAgreements (.holdingSlots request) with
      | .error _ => return .error .fatal
      | .ok holding =>
        match ← Registry.listAgreements .inFlight with
        | .error _ => return .error .fatal
        | .ok inFlight =>
          return .ok (some {
            numCandidates := numCandidates
            deploymentId := stored.deploymentId
            active := active
            held := (holding.map (·.indexerId)).dedup
            inFlight := inFlight.map (·.indexerId) })

/-- The group IISA wants; a failure is retried unless it is one of dipper's own. -/
def selectTarget (request : IndexingRequestId) (numCandidates : Nat) :
    Act (Except JobError (List SelectedIndexer)) := do
  match ← gatherSelectionContext with
  | .error _ => return .error .fatal
  | .ok _ =>
    match ← selectIndexers request numCandidates with
    | .ok picks => return .ok picks
    | .error .iisaServiceUnavailable | .error .iisaRejected =>
      return .error (.retryable (Duration.fromSecs 60))
    | .error .error => return .error .fatal

structure Diff where
  toAdd : List IndexerId
  toCancel : List IndexerId
  diffAddCount : Nat
  unofferable : Nat
  deriving DecidableEq, Repr

/-- New offers fill what the agreements kept and the held slots leave of the target, in IISA's
order, among the picks dipper can offer to. -/
def computeDiff (b : Baseline) (picks : List SelectedIndexer) : Diff :=
  let current := b.current
  let target := (picks.map (·.id)).dedup
  let new := picks.filter fun pick => pick.id ∉ current ∧ pick.id ∉ b.held
  let offers := (new.filter (·.offer)).map (·.id)
  let kept := (current.filter (· ∈ target)).length
  let room := b.numCandidates - (b.held.length + kept)
  { toAdd := (((picks.map (·.id)).filter (· ∈ offers)).take room).dedup
    toCancel := current.filter (· ∉ target)
    diffAddCount := (target.filter (· ∉ current)).length
    unofferable := (new.filter fun pick => !pick.offer).length }

/-- The coverage-shortfall signal, emitted once on the way into shortfall. -/
def signalShortfall (request : IndexingRequestId) (b : Baseline) (offerablePicks : Nat) :
    Act Unit := do
  let inShortfall := decide (offerablePicks < b.numCandidates)
  match ← Registry.setIndexingRequestShortfallActive request inShortfall with
  | .ok true =>
    if inShortfall then
      let _ ← emit (.nIndexersUnavailable b.deploymentId b.numCandidates offerablePicks)
      return ()
  | _ => return ()

/-- The additions the caps admit, the number withheld, and the olds kept for those withheld. -/
def planAdditions (config : Config) (b : Baseline) (diff : Diff) (cancels : Nat) :
    List IndexerId × Nat × Nat :=
  if diff.toAdd.isEmpty then ([], 0, reservedCancelCount cancels diff.diffAddCount 0)
  else
    let (allowed, withheld) := planCappedAdditions diff.toAdd b.inFlight.count b.inFlight.length
      config.maxInFlightOffersPerIndexer config.maxInFlightOffersTotal
    (allowed, withheld, reservedCancelCount cancels diff.diffAddCount allowed.length)

def newTerms (config : Config) (b : Baseline) (now : Nat) : Terms where
  payer := config.recurringAgreementManager
  deadline := saturatingAdd now config.deadlineSeconds
  endsAt := saturatingAdd now config.durationSeconds
  subgraphDeploymentId := b.deploymentId
  protocolNetwork := config.signerChainId
  proposedAt := now

/-- Register a new agreement, in the place of an old one if one is left. -/
def registerNew (config : Config) (request : IndexingRequestId) (b : Baseline) (now : Nat)
    (indexer : IndexerId) (replaces : Option IndexingAgreement) :
    Act (Except RegistryError IndexingAgreementId) := do
  let (id, versionHash) ← newAgreementId
  let params : NewAgreementParams :=
    { agreementId := id
      requestId := request
      deploymentId := b.deploymentId
      indexerId := indexer
      terms := newTerms config b now
      termsVersionHash := some versionHash }
  let registered ← match replaces with
    | some old => Registry.registerAgreementWithPendingCancellation params old.id
    | none => Registry.registerNewIndexingAgreement params
  match registered with
  | .ok _ => return .ok id
  | .error err => return .error err

/-- Register and propose the additions in turn, each taking the next old agreement; the indexers
proposed to, and the olds left over. -/
def addEach (config : Config) (request : IndexingRequestId) (b : Baseline) (now : Nat) :
    List IndexerId → List IndexingAgreement → Act (List IndexerId × List IndexingAgreement)
  | [], olds => return ([], olds)
  | indexer :: rest, olds => do
    match ← registerNew config request b now indexer olds.head? with
    | .error _ => addEach config request b now rest olds.tail
    | .ok id =>
      match ← push (.sendIndexingAgreementProposal id request) with
      | .error _ => addEach config request b now rest olds.tail
      | .ok _ =>
        let (proposed, left) ← addEach config request b now rest olds.tail
        return (indexer :: proposed, left)

/-- Take an old agreement out of the target group; one that may be live is cancelled on-chain. -/
def cancelUnpaired (config : Config) (agreement : IndexingAgreement) : Act Unit := do
  let mayBeLive := agreement.status = .acceptedOnChain ||
    (agreement.status = .created && agreement.termsVersionHash.isSome)
  if !mayBeLive then
    let _ ← Registry.update agreement.id .markAsCanceledByRequester
    return ()
  let _ ← startCancel config agreement .notWanted
  return ()

def announceProposed (config : Config) (b : Baseline) (now : Nat) (proposed : List IndexerId) :
    Act Unit := do
  if proposed.isEmpty then return ()
  let _ ← emit (.proposed b.deploymentId proposed (saturatingAdd now config.deadlineSeconds))
  return ()

/-- Carry a diff out: the additions, then the cancels. -/
def carryOut (config : Config) (request : IndexingRequestId) (b : Baseline) (diff : Diff) :
    Act (Except JobError Unit) := do
  let oldToCancel := b.active.filter fun agreement => agreement.indexerId ∈ diff.toCancel
  let (allowed, withheld, reserved) := planAdditions config b diff oldToCancel.length
  match ← resolveDeadlineClock config with
  | .error err => return .error err
  | .ok now =>
    let olds := oldToCancel.take (oldToCancel.length - reserved)
    let (proposed, left) ← addEach config request b now (← iterate allowed) olds
    announceProposed config b now proposed
    Concurrent.Prog.forEach left (cancelUnpaired config)
    if withheld > 0 then return .error (.deferred (pacingDeferDelay request))
    return .ok ()

/-- What a pass does once IISA has answered. -/
def actOnDiff (config : Config) (request : IndexingRequestId) (b : Baseline)
    (picks : List SelectedIndexer) : Act (Except JobError Unit) := do
  let diff := computeDiff b picks
  signalShortfall request b (picks.length - diff.unofferable)
  if diff.toCancel.isEmpty && diff.toAdd.isEmpty then return .ok ()
  carryOut config request b diff

/-- One pass, holding the lock that only one pass holds at a time. -/
def handle (config : Config) (request : IndexingRequestId) : Act (Except JobError Unit) := do
  match ← readBaseline request with
  | .error err => return .error err
  | .ok none => return .ok ()
  | .ok (some b) =>
    if shouldDeferSaturated b.inFlight.length config.maxInFlightOffersTotal
        (b.numCandidates - b.held.length) b.active.length then
      return .error (.deferred (pacingDeferDelay request))
    match ← selectTarget request b.numCandidates with
    | .error err => return .error err
    | .ok picks => actOnDiff config request b picks

end Reassess

end Dipper
