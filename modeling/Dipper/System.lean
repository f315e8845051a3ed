import Dipper.Concurrent.Discipline
import Dipper.Listener.Sweeps
import Dipper.Reassess
import Dipper.Services

/-! The system: dipper's services and workers over the world they share, and what moves outside
them.  One chain listener and one reassessment run at a time; of everything else any number runs
at once, and a job that is queued may be run again at any time. -/

namespace Dipper

inductive Tag : Type
  | chainListener
  | reassess
  | proposal
  | submitOffer
  | chainCheck
  | expiration
  | liveness
  | cancelRetry
  deriving DecidableEq, Repr

inductive Seed : Type
  | poll
  | job (job : Job)
  | expirationScan
  | livenessCheck
  | cancelRetry
  deriving DecidableEq, Repr

def Job.thread (config : Config) : Job → Concurrent.Thread Tag Op Res Unit
  | .sendIndexingAgreementProposal id request =>
    ⟨.proposal, do let _ ← SendProposal.handle id request; return ()⟩
  | .submitOffer id _ => ⟨.submitOffer, do let _ ← SubmitOffer.handle id; return ()⟩
  | .reassessIndexingRequest request =>
    ⟨.reassess, do let _ ← Reassess.handle config request; return ()⟩
  | .cancelRejectedAgreementOnChain id accept =>
    ⟨.chainCheck, do let _ ← CancelRejected.handle id accept; return ()⟩

/-- A cycle of the cancel retry, with the replacements that it queues. -/
def cancelRetryCycle (config : Config) : Act Unit := do
  let _ ← retryCancellingAgreements config
  Liveness.replaceEndedAbandoned

def Seed.thread (config : Config) (w : World) :
    Seed → Option (Concurrent.Thread Tag Op Res Unit)
  | .poll => some ⟨.chainListener, Listener.poll config w.memory⟩
  | .job j => if j ∈ w.jobs then some (j.thread config) else none
  | .expirationScan => some ⟨.expiration, Expiration.scan config⟩
  | .livenessCheck => some ⟨.liveness, Liveness.check config⟩
  | .cancelRetry => some ⟨.cancelRetry, cancelRetryCycle config⟩

/-- What the subgraph says of an agreement in the state `c`.  An offer withdrawn reads as cancelled
by the payer with no accept time, and may go on so when it is made again. -/
def Reflects (c : OnChain) (s : AgreementStateSnapshot) : Prop :=
  match c with
  | .absent => False
  | .offered _ | .withdrawn =>
    (s.state = .notAccepted ∨ s.state = .canceledByPayer) ∧ s.acceptedAt = 0
  | .accepted acceptedAt => s.state = .accepted ∧ s.acceptedAt = acceptedAt
  | .ended acceptedAt endedAt .payer =>
    s.state = .canceledByPayer ∧ s.acceptedAt = acceptedAt ∧ s.canceledAt = endedAt
  | .ended acceptedAt endedAt .provider =>
    s.state = .canceledByServiceProvider ∧ s.acceptedAt = acceptedAt ∧ s.canceledAt = endedAt

instance (c : OnChain) (s : AgreementStateSnapshot) : Decidable (Reflects c s) := by
  induction c using OnChain.casesOn with
  | absent => exact isFalse not_false
  | ended acceptedAt endedAt party => cases party <;> exact instDecidableAnd
  | _ => exact instDecidableAnd

/-- The moves of the world outside: the clocks, the parties on the chain, the subgraph's indexing,
requests made, changed or put up for reassessment, and a restart of the chain listener. -/
inductive Outside : Type
  | clock (now : Nat)
  | block (time : Nat)
  | accept (id : IndexingAgreementId)
  | finish (id : IndexingAgreementId) (by' : EndedBy)
  | index (graph : Subgraph)
  | request (request : IndexingRequestId) (value : IndexingRequest)
  | reassess (request : IndexingRequestId)
  | restart

/-- What the listener starts with: the cursor and time it persisted. -/
def World.startingMemory (w : World) (config : Config) : ListenerMemory :=
  match w.listenerState with
  | some (cursor, ts) =>
    { cursor := cursor, lastPersistedTimestamp := ts, brokerBackoff := config.pollIntervalSecs }
  | none => { brokerBackoff := config.pollIntervalSecs }

def Outside.move (config : Config) (w : World) : Outside → Option World
  | .clock now => some { w with now := now }
  | .block time => if w.chainTime ≤ time then some { w with chainTime := time } else none
  | .accept id => ((w.chain id).accept w.chainTime).map (w.setChain id)
  | .finish id by' => ((w.chain id).finish w.chainTime by').map (w.setChain id)
  | .index graph =>
    if ∀ s ∈ graph.rows, Reflects (w.chain s.agreementId) s then
      some { w with indexed := ⟨graph, w.chain⟩ }
    else none
  | .request id value => some { w with requests := w.requests.insert id value }
  | .reassess id => some { w with jobs := w.jobs ++ [.reassessIndexingRequest id] }
  | .restart => some { w with memory := w.startingMemory config }

/-- The services, with a condition under which they take their operations. -/
def services (config : Config) (allow : World → Tag → Op → Choice → Prop) :
    Concurrent.System World Tag Op Res Unit Choice Seed Outside where
  exec := World.exec
  start w seed := seed.thread config w
  env := Outside.move config
  allow := allow
  exclusive t := t = .chainListener || t = .reassess
  drops := true

abbrev allServices (config : Config) :
    Concurrent.System World Tag Op Res Unit Choice Seed Outside :=
  services config fun _ _ _ _ => True

/-- The world before dipper has made any agreement. -/
def World.fresh (now chainTime : Nat) (requests : Requests) : World where
  now := now
  agreements := ∅
  pending := []
  requests := requests
  listenerState := none
  chain _ := .absent
  chainTime := chainTime
  indexed := ⟨.empty, fun _ => .absent⟩
  pinned := ⟨.empty, fun _ => .absent⟩
  jobs := []
  events := []
  journal := []
  memory := {}
  replaced := []
  terminatedListed := []
  acceptedListed := []
  acceptsApplied := []
  clocks := []
  pageListed := []
  misread := []
  heads := []

section Sample

/-- A small instance that later runs are exhibited on: one open request for one indexer, and the
chain's time taken for the clock. -/
def sampleConfig : Config where
  recurringAgreementManager := 7
  reorgBufferBlocks := 1
  chainTsDriftToleranceSecs := 0
  wallClockSkewToleranceSecs := 0
  bypassChainClockDefenses := true
  pollIntervalSecs := 1
  expirationGraceSecs := 0
  expirationBatchSize := 10
  maxInFlightOffersTotal := none
  maxInFlightOffersPerIndexer := none
  durationSeconds := 100
  deadlineSeconds := 10
  signerChainId := 1
  chainListenerChainId := none

def sampleRequests : Requests :=
  (∅ : Requests).insert 1
    { status := .opened, deploymentId := "Qm", deploymentChainId := 1, numCandidates := 1 }

def sampleAgreement : AgreementRow where
  indexingRequestId := 1
  deploymentId := "Qm"
  indexerId := 1
  terms := ⟨7, 15, 115, "Qm", 1, 5⟩
  termsVersionHash := some (List.replicate 32 0)
  createdAt := 5
  updatedAt := 5

def offeredWorld : World := (World.fresh 5 5 sampleRequests).setRow 10 sampleAgreement

abbrev Moves : Type := List (Concurrent.Move Choice Seed Outside)

/-- A first reassessment that registers agreement `id` with `indexer`. -/
def offerMoves (id : IndexingAgreementId) (indexer : IndexerId) : Moves :=
  [.env (.reassess 1), .start (.job (.reassessIndexingRequest 1)), .op 0 .ok, .op 0 (.rows []),
    .op 0 (.rows []), .op 0 (.rows []), .op 0 .ok, .op 0 (.selected (.ok [⟨indexer, true⟩])),
    .op 0 .ok, .op 0 .ok, .op 0 (.order [indexer]), .op 0 (.fresh id (List.replicate 32 0)),
    .op 0 .ok, .op 0 .ok, .op 0 .ok, .drop 0]

/-- The indexer takes the proposal of agreement `id` and its offer is submitted. -/
def submitMoves (id : IndexingAgreementId) : Moves :=
  [.start (.job (.sendIndexingAgreementProposal id 1)), .op 0 (.rows [id]),
    .op 0 (.reply .accepted), .op 0 .ok, .drop 0, .start (.job (.submitOffer id 1)),
    .op 0 (.rows [id]), .op 0 (.mined (some "0xaa") true), .op 0 .ok, .op 0 (.rows [id]), .drop 0]

def sampleSnapshot (id : IndexingAgreementId) (state : AgreementState)
    (block acceptedAt canceledAt : Nat) : AgreementStateSnapshot where
  agreementId := id
  indexer := 1
  state := state
  canceledBy := 7
  lastStateChangeBlock := block
  acceptedAt := acceptedAt
  acceptedTx := "0xbb"
  canceledAt := canceledAt
  canceledTx := "0xcc"

def sampleEntity (id state block acceptedAt canceledAt : String) : IndexingAgreementEntity where
  id := id
  indexer := "0x0000000000000000000000000000000000000001"
  state := state
  canceledBy := "0x0000000000000000000000000000000000000007"
  lastStateChangeBlock := block
  acceptedAt := acceptedAt
  acceptedAtTx := "0xbb"
  canceledAt := canceledAt
  canceledAtTx := "0xcc"

def acceptedEntity : IndexingAgreementEntity :=
  sampleEntity "0x0000000000000000000000000000000a" "Accepted" "3" "5" "0"

def acceptedGraph : Subgraph where
  rows := [sampleSnapshot 10 .accepted 3 5 0]
  head := 3
  headTimestamp := some 5
  sorted := by decide
  unique := by decide

/-- Agreement 10 is accepted on the chain and indexed, and a poll reads and applies it. -/
def acceptMoves : Moves :=
  [.env (.accept 10), .env (.index acceptedGraph), .start .poll,
    .op 0 (.page ⟨[acceptedEntity], 3, some 5⟩), .op 0 .ok, .op 0 (.rows [10]),
    .op 0 (.answer false), .op 0 .ok]

/-- The rest of that poll: the commit of its page, the `accepted` event and empty sweeps. -/
def announceMoves : Moves :=
  [.op 0 .ok, .op 0 .ok, .op 0 .ok, .op 0 .ok, .op 0 .ok, .op 0 .ok, .op 0 (.rows [10]), .op 0 .ok,
    .op 0 .ok, .op 0 (.rows []), .op 0 (.rows []), .op 0 (.rows []), .op 0 (.rows []), .op 0 .ok,
    .drop 0]

/-- A second pass drops the indexer of the accepted agreement 10 for another, and registers
agreement 20 in its place. -/
def replaceMoves : Moves :=
  [.start (.job (.reassessIndexingRequest 1)), .op 0 .ok, .op 0 (.rows [10]), .op 0 (.rows []),
    .op 0 (.rows []), .op 0 .ok, .op 0 (.selected (.ok [⟨2, true⟩])), .op 0 .ok, .op 0 .ok,
    .op 0 (.order [2]), .op 0 (.fresh 20 (List.replicate 32 0)), .op 0 .ok, .op 0 .ok, .op 0 .ok,
    .drop 0]

/-- The subgraph shows agreement 10 accepted and ended by its indexer at 5. -/
def endedGraph : Subgraph where
  rows := [sampleSnapshot 10 .canceledByServiceProvider 3 5 5]
  head := 3
  headTimestamp := some 5
  sorted := by decide
  unique := by decide

def endedEntity : IndexingAgreementEntity :=
  sampleEntity "0x0000000000000000000000000000000a" "CanceledByServiceProvider" "3" "5" "5"

/-- Agreement 10 is accepted and ended on the chain before a poll reads either, which then records
both at once and comes to its sweeps. -/
def endedMoves : Moves :=
  offerMoves 10 1 ++ submitMoves 10 ++
  ([.env (.accept 10), .env (.finish 10 .provider), .env (.index endedGraph), .start .poll,
     .op 0 (.page ⟨[endedEntity], 3, some 5⟩), .op 0 .ok, .op 0 (.rows [10]), .op 0 (.answer false),
     .op 0 .ok, .op 0 .ok, .op 0 .ok, .op 0 .ok, .op 0 .ok, .op 0 .ok, .op 0 .ok] : Moves)

/-- Agreement 10 is offered and not accepted; a poll reads an empty page past its deadline, and
with the time it persists an expiration scan marks the agreement before the poll's sweeps. -/
def expiredMoves : Moves :=
  offerMoves 10 1 ++
  ([.env (.block 20), .env (.index { Subgraph.empty with head := 5, headTimestamp := some 20 }),
     .start .poll,
     .op 0 (.page ⟨[], 5, some 20⟩), .op 0 .ok, .op 0 (.rows []), .op 0 .ok, .op 0 .ok, .op 0 .ok,
     .op 0 .ok, .start .expirationScan, .op 1 .ok, .op 1 (.rows [10]), .op 1 (.answer false),
     .op 1 .ok, .drop 1, .op 0 .ok, .op 0 (.rows []), .op 0 (.rows []), .op 0 (.rows [10]),
     .op 0 .ok] : Moves)

/-- The subgraph shows agreement 10 accepted at 5, before its deadline, at a block past it. -/
def lateGraph : Subgraph where
  rows := [sampleSnapshot 10 .accepted 3 5 0]
  head := 5
  headTimestamp := some 20
  sorted := by decide
  unique := by decide

/-- A poll up to the batch of its page, which shows agreement 10 accepted. -/
def latePollMoves : Moves :=
  [.start .poll, .op 0 (.page ⟨[acceptedEntity], 5, some 20⟩), .op 0 .ok, .op 0 (.rows [10]),
    .op 0 (.answer false)]

/-- Agreement 10 is accepted; the write of the page that shows it fails while the chain's time is
persisted, and an expiration scan marks the agreement. -/
def failedWriteMoves : Moves :=
  ([.env (.accept 10), .env (.block 20), .env (.index lateGraph)] : Moves) ++ latePollMoves ++
  ([.op 0 .fail, .op 0 .ok, .op 0 .ok, .op 0 .ok, .op 0 .ok, .op 0 .ok,
     .start .expirationScan, .op 1 .ok, .op 1 (.rows [10]), .op 1 (.answer false), .op 1 .ok,
     .drop 1] : Moves)

/-- The same after agreement 10 has been offered. -/
def prematureExpiryMoves : Moves := offerMoves 10 1 ++ submitMoves 10 ++ failedWriteMoves

end Sample

end Dipper
