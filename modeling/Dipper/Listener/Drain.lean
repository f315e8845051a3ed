import Dipper.Listener.Reconcile

/-! One drain of the subgraph by the chain listener: page after page from the cursor, less the
reorg buffer, until a page is not full, the cursor is held back or the listener is stopped. -/

namespace Dipper

namespace Listener

def maxPagesPerDrain : Nat := 1000

/-- How long, in seconds, changes that fail to apply hold the cursor back. -/
def maxCursorHold : Nat := 600

def maxLoggedIds : Nat := 20

/-- Whether the cursor has been held at the same place for long enough to move on, with the hold
as it is after. -/
def holdExpired (hold : Option CursorHold) (cursor : Cursor) (now : Nat) :
    Option CursorHold × Bool :=
  match hold with
  | some held =>
    if held.cursor = cursor then
      if now - held.since < maxCursorHold then (hold, false) else (none, true)
    else (some ⟨cursor, now⟩, false)
  | none => (some ⟨cursor, now⟩, false)

/-- The agreement ids for an alert, the first few of a long list. -/
def listedIds (ids : List IndexingAgreementId) : String :=
  let shown := ", ".intercalate ((ids.take maxLoggedIds).map IndexingAgreementId.text)
  let more := ids.length - maxLoggedIds
  if more > 0 then shown ++ " and " ++ toString more ++ " more" else shown

def applyChainTsDriftCap (newTs cachedTs nowSecs toleranceSecs : Nat) (bypass : Bool) : Nat :=
  if bypass then newTs
  else
    let maxAllowed := saturatingAdd nowSecs toleranceSecs
    if newTs > maxAllowed then max maxAllowed cachedTs else newTs

def checkSkew (config : Config) : Option Nat → Act (Except ChainEventError Unit)
  | some ts => do
    return checkSubgraphSkew ts (← nowSecs) config.wallClockSkewToleranceSecs
      config.bypassChainClockDefenses
  | none => return .ok ()

def getChangedAgreements (config : Config) (since : Cursor) (pinned : Option Nat) :
    Act (Except ChainEventError ChangedAgreementsResult) := do
  match ← queryChanged since pinned with
  | .error err => return .error err
  | .ok response =>
    match checkPinnedBlock pinned response.blockNumber with
    | .error err => return .error err
    | .ok _ =>
      match ← checkSkew config response.blockTimestamp with
      | .error err => return .error err
      | .ok _ => return readPage since response

/-- Where a drain starts reading: the reorg buffer before the cursor. -/
def effectiveCursor (reorgBufferBlocks : Nat) (cursor : Cursor) : Cursor :=
  if cursor.block > 0 ∧ reorgBufferBlocks > 0 ∧ cursor.block > reorgBufferBlocks then
    .atBlock (cursor.block - reorgBufferBlocks)
  else cursor

/-- What preparing a page's snapshots leaves. -/
structure PageWork where
  prepared : List PreparedReconciliation := []
  unapplied : List IndexingAgreementId := []
  errors : Nat := 0
  liveChecks : List (IndexingAgreementId × Nat)
  deriving DecidableEq, Repr

def PageWork.add (work : PageWork) (id : IndexingAgreementId)
    (prepared : Except Unit (Option PreparedReconciliation))
    (liveChecks : List (IndexingAgreementId × Nat)) : PageWork :=
  match prepared with
  | .ok (some prep) =>
    { work with prepared := work.prepared ++ [prep], liveChecks := liveChecks }
  | .ok none => { work with liveChecks := liveChecks }
  | .error _ =>
    { work with
      unapplied := work.unapplied ++ [id]
      errors := work.errors + 1
      liveChecks := liveChecks }

/-- Prepare the snapshots in turn, each with its agreement of those read, until a stop is
requested; whether it was. -/
def prepareEach : List AgreementStateSnapshot → List IndexingAgreement → PageWork →
    Act (Bool × PageWork)
  | [], _, work => return (false, work)
  | snapshot :: rest, agreements, work => do
    if ← stopRequested then return (true, work)
    let agreement := agreements.find? fun a => a.id = snapshot.agreementId
    let (prepared, liveChecks) ← prepareReconciliation snapshot agreement work.liveChecks
    prepareEach rest (agreements.filter fun a => a.id ≠ snapshot.agreementId)
      (work.add snapshot.agreementId prepared liveChecks)

def preparePage (snapshots : List AgreementStateSnapshot)
    (liveChecks : List (IndexingAgreementId × Nat)) : Act (Bool × PageWork) := do
  let ids := snapshots.map (·.agreementId)
  match ← Registry.listAgreements (.byIds ids) with
  | .ok agreements => prepareEach snapshots agreements { liveChecks := liveChecks }
  | .error _ =>
    prepareEach snapshots []
      { unapplied := ids, errors := ids.length, liveChecks := liveChecks }

/-- Apply the prepared items, all or none. -/
def applyPage (work : PageWork) : Act (PageWork × Outcomes) := do
  let items := work.prepared.map (·.item)
  if items.isEmpty then return (work, ∅)
  match ← Registry.applyReconciliationBatch items with
  | .ok outcomes => return (work, outcomes)
  | .error _ =>
    return ({ work with
      errors := work.errors + items.length
      unapplied := work.unapplied ++ items.map (·.agreementId) }, ∅)

/-- Finalize what was applied; how many went through and how many failed. -/
def finalizeEach (config : Config) (outcomes : Outcomes) :
    List PreparedReconciliation → Act (Nat × Nat)
  | [] => return (0, 0)
  | prep :: rest => do
    match outcomes.lookup prep.agreement.id with
    | none => finalizeEach config outcomes rest
    | some outcome =>
      match ← finalizeReconciliation config prep outcome with
      | .ok _ =>
        let (processed, errors) ← finalizeEach config outcomes rest
        return (processed + 1, errors)
      | .error _ =>
        let (processed, errors) ← finalizeEach config outcomes rest
        return (processed, errors + 1)

structure PageReport where
  stopped : Bool := false
  unapplied : List IndexingAgreementId := []
  processed : Nat := 0
  errors : Nat := 0
  liveChecks : List (IndexingAgreementId × Nat)
  deriving DecidableEq, Repr

def reconcilePage (config : Config) (since : Cursor) (snapshots : List AgreementStateSnapshot)
    (liveChecks : List (IndexingAgreementId × Nat)) : Act PageReport := do
  let (stopped, work) ← preparePage snapshots liveChecks
  if stopped then
    return { stopped := true, errors := work.errors, liveChecks := work.liveChecks }
  let (work, outcomes) ← applyPage work
  note (.pageDone since snapshots work.unapplied)
  let (processed, errors) ← finalizeEach config outcomes work.prepared
  return {
    unapplied := work.unapplied
    processed := processed
    errors := work.errors + errors
    liveChecks := work.liveChecks }

def ratchetTimestamp (config : Config) (newTs cachedTs : Option Nat) : Act (Option Nat) :=
  match newTs, cachedTs with
  | none, _ => return cachedTs
  | some new, cached => do
    if cached.any fun ts => new < ts then return cached
    return some (applyChainTsDriftCap new (cached.getD 0) (← nowSecs)
      config.chainTsDriftToleranceSecs config.bypassChainClockDefenses)

def raiseHoldAlert (cursor : Cursor) (unapplied : List IndexingAgreementId)
    (skip alreadyHeld : Bool) : Act Unit := do
  if skip then
    note (.changesSkipped cursor.block unapplied.length (listedIds unapplied) unapplied)
  else if !unapplied.isEmpty && !alreadyHeld then
    note (.cursorHeld cursor.block unapplied.length (listedIds unapplied))

/-- The hold after a page, and whether the changes it left unapplied are to be skipped. -/
def holdAfter (memory : ListenerMemory) (unapplied : List IndexingAgreementId) (now : Nat) :
    Option CursorHold × Bool :=
  if unapplied.isEmpty then (none, false) else holdExpired memory.cursorHold memory.cursor now

/-- Persist the cursor and the timestamp if one of them changed; the timestamp that is then
persisted. -/
def persistState (changed : Bool) (cursor : Cursor) (ratchet persisted : Option Nat) :
    Act (Option Nat) :=
  if changed then do
    match ← Registry.updateChainListenerState cursor ratchet with
    | .ok _ => return ratchet
    | .error _ => return persisted
  else return persisted

/-- Move the cursor past a page, or hold it back, and persist what changed; whether it moved. -/
def commitPage (config : Config) (memory : ListenerMemory)
    (unapplied : List IndexingAgreementId) (newCursor : Cursor) (newTs : Option Nat) :
    Act (ListenerMemory × Bool) := do
  let now ← nowSecs
  let ratchet ← ratchetTimestamp config newTs memory.lastPersistedTimestamp
  let alreadyHeld := memory.cursorHold.any fun hold => hold.cursor = memory.cursor
  let hold := holdAfter memory unapplied now
  let advance := (unapplied.isEmpty || hold.2) && decide (memory.cursor < newCursor)
  raiseHoldAlert memory.cursor unapplied hold.2 alreadyHeld
  let cursor := if advance then newCursor else memory.cursor
  let persisted ← persistState (advance || ratchet != memory.lastPersistedTimestamp) cursor ratchet
    memory.lastPersistedTimestamp
  let memory := { memory with
    cursor := cursor
    cursorHold := hold.1
    lastPersistedTimestamp := persisted }
  return (memory, advance)

structure DrainOutcome where
  pages : Nat
  processed : Nat
  errors : Nat
  latestBlock : Nat
  stopped : Bool
  deriving DecidableEq, Repr

/-- Stall detection, on the first page of a drain. -/
def noteHead (memory : ListenerMemory) (latestBlock : Nat) : ListenerMemory :=
  let stallCount :=
    if latestBlock = memory.lastSubgraphHead ∧ latestBlock > 0 then memory.stallCount + 1
    else if memory.stallCount > 0 ∧ latestBlock > memory.lastSubgraphHead then 0
    else memory.stallCount
  { memory with stallCount := stallCount, lastSubgraphHead := latestBlock }

/-- The pages of a drain, at most `remaining` of them, from `since` on. -/
def drainPages (config : Config) : (remaining : Nat) → (since : Cursor) → (pinned : Option Nat) →
    ListenerMemory → DrainOutcome → Act (ListenerMemory × Except Unit DrainOutcome)
  | 0, _, _, memory, outcome => return (memory, .ok outcome)
  | remaining + 1, since, pinned, memory, outcome => do
    match ← getChangedAgreements config since pinned with
    | .error _ =>
      return ({ memory with consecutiveFailures := memory.consecutiveFailures + 1 }, .error ())
    | .ok result =>
      let memory := { memory with consecutiveFailures := 0 }
      let memory := if pinned.isNone then noteHead memory result.latestBlock else memory
      let report ← reconcilePage config since result.snapshots memory.liveChecks
      let memory := { memory with liveChecks := report.liveChecks }
      let outcome := { outcome with
        latestBlock := result.latestBlock
        processed := outcome.processed + report.processed
        errors := outcome.errors + report.errors }
      if report.stopped then return (memory, .ok { outcome with stopped := true })
      let outcome := { outcome with pages := outcome.pages + 1 }
      let (memory, advanced) ← commitPage config memory report.unapplied result.cursor
        result.latestBlockTimestamp
      if !advanced || result.snapshots.length < subgraphPageSize then
        return (memory, .ok outcome)
      drainPages config remaining result.cursor (pinned.or (some result.latestBlock)) memory outcome

def drainOnce (config : Config) (memory : ListenerMemory) :
    Act (ListenerMemory × Except Unit DrainOutcome) :=
  let since := effectiveCursor config.reorgBufferBlocks memory.cursor
  let memory := { memory with liveChecks := forgetBefore since.block memory.liveChecks }
  drainPages config maxPagesPerDrain since none memory ⟨0, 0, 0, 0, false⟩

end Listener

end Dipper
