import Dipper.Chain
import Dipper.ChainClient.SeenBlock
import Dipper.Concurrent.Prog
import Mathlib.Data.List.DropRight
import Mathlib.Data.List.Infix

/-! The chain client's shared state, the operations its tasks perform on it and on the RPC
endpoints, and the pool that tries the endpoints one after another.  An endpoint may answer
anything; what it answers is part of how an operation comes out. -/

namespace Dipper

abbrev TaskId : Type := Nat

namespace AlloyClient

inductive ClientError : Type
  | submitFailed (cause : String)
  | rpcError (cause : String)
  | txDropped (hash : TxHash) (receiptChecked : Bool)
  | txReverted (hash : TxHash)
  | contractRevert (selector : Vector UInt8 4) (data : List UInt8)
  deriving DecidableEq, Repr

def ClientError.text : ClientError → String
  | .submitFailed cause => "failed to submit transaction: " ++ cause
  | .rpcError cause => "RPC error: " ++ cause
  | .txDropped hash _ => "tx " ++ hash ++ " did not mine within the receipt-poll window"
  | .txReverted hash => "tx " ++ hash ++ " reverted on-chain"
  | .contractRevert selector _ => "contract reverted with selector 0x" ++
    String.ofList (selector.toList.flatMap fun byte => hexDigits 2 byte.toNat)

/-- Why one endpoint failed a call: dipper refused it for its block, a client error was boxed in, or
the endpoint's own answer.  `transient` says that its status or code is one worth a retry. -/
inductive TransportError : Type
  | behind (head seen : Nat)
  | farAhead (head seen : Nat)
  | boxed (e : ClientError)
  | reply (text : String) (transient : Bool)
  deriving DecidableEq, Repr

def behindASeenBlock : String := "behind a block already seen"

def farAheadOfASeenBlock : String := "too far ahead of the newest block seen"

def TransportError.text : TransportError → String
  | .behind head seen =>
    "endpoint is at block " ++ toString head ++ ", " ++ behindASeenBlock ++ " (" ++ toString seen ++ ")"
  | .farAhead head seen =>
    "endpoint is at block " ++ toString head ++ ", " ++ farAheadOfASeenBlock ++ " (" ++
      toString seen ++ ")"
  | .boxed e => e.text
  | .reply text _ => text

def hasText (text part : String) : Bool := decide (part.toList <:+: text.toList)

def retryableErrorPatterns : List String :=
  ["header not found", "unknown block", "connection refused", "connection reset",
    "connection closed", "timeout", "timed out", "rate limit", "too many requests",
    "service unavailable", "bad gateway", "temporary internal error"]

def TransportError.isBehind (e : TransportError) : Bool := hasText e.text behindASeenBlock

def TransportError.isRetryable (e : TransportError) : Bool :=
  (match e with
    | .reply _ transient => transient
    | _ => false) ||
  retryableErrorPatterns.any fun p => hasText e.text.toLower p

inductive ManagerCall : Type
  | offerAgreement (collector : Address) (offerType : Nat) (offerData : List UInt8)
  | cancelAgreement (collector : Address) (id : IndexingAgreementId) (versionHash : List UInt8)
      (options : UInt16)
  | reconcileProvider (collector provider : Address)
  | reconcileAgreement (collector : Address) (id : IndexingAgreementId)
  deriving DecidableEq, Repr

structure TransactionRequest where
  to' : Address
  input : Option ManagerCall := none
  gasLimit : Option Nat := none
  maxFeePerGas : Option Nat := none
  maxPriorityFeePerGas : Option Nat := none
  chainId : Option Nat := none
  nonce : Option Nat := none
  deriving DecidableEq, Repr

structure SignedTx where
  to' : Address
  input : Option ManagerCall
  gasLimit : Nat
  maxFeePerGas : Nat
  maxPriorityFeePerGas : Nat
  chainId : Nat
  nonce : Nat
  deriving DecidableEq, Repr

/-- The transaction a request is signed to, if nothing is missing from it. -/
def TransactionRequest.build (tx : TransactionRequest) : Option SignedTx := do
  return ⟨tx.to', tx.input, ← tx.gasLimit, ← tx.maxFeePerGas, ← tx.maxPriorityFeePerGas,
    ← tx.chainId, ← tx.nonce⟩

structure ClientConfig where
  endpoints : Nat
  /-- A pool without endpoints is refused when it is made. -/
  nonempty : 0 < endpoints
  endpointUrl : Nat → String
  endpointName : Nat → String
  maxRetries : Nat
  chainId : Nat
  signer : Address
  recurringCollector : Address
  recurringAgreementManager : Address
  /-- The base fee times the multiplier, plus the priority fee. -/
  calculateMaxFee : Nat → Nat → Nat
  maxGasPriceGwei : Nat
  /-- A gas estimate times the buffer. -/
  withBuffer : Nat → Nat
  gasFloor : Nat
  gasMaxAddition : Nat
  submitDeadlineSecs : Nat
  /-- The hash of a signed transaction's bytes. -/
  txHash : SignedTx → TxHash

structure Receipt where
  blockNumber : Option Nat
  status : Bool
  deriving DecidableEq, Repr

structure SubmittedTx where
  hash : TxHash
  nonce : Nat
  deriving DecidableEq, Repr

def SignedTx.submitted (config : ClientConfig) (tx : SignedTx) : SubmittedTx :=
  ⟨config.txHash tx, tx.nonce⟩

def alreadyBroadcastPatterns : List String :=
  ["already known", "already imported", "known transaction"]

def isAlreadyBroadcast (error : TransportError) : Bool :=
  alreadyBroadcastPatterns.any fun p => hasText error.text.toLower p

/-- Whether an endpoint that answers so has the transaction. -/
def accepts : Except TransportError Unit → Bool
  | .ok _ => true
  | .error e => isAlreadyBroadcast e

def nonceUninitialized : Nat := maxU64

/-- The state the client's tasks share, with the chain's head.  `submitLock` is the task that holds
the lock.  From `pendingCounts` on the fields are history: the pending counts the endpoints reported,
the transactions handed to them and those they accepted, and the submissions whose call returned
them as sent. -/
structure ClientState where
  now : Nat
  trueHead : Nat
  seenBlock : SeenBlock
  endpointHeads : Nat → Option (Nat × Nat)
  currentIndex : Nat
  nonce : Nat
  submitLock : Option TaskId
  pendingCounts : List Nat
  handed : List SignedTx
  accepted : List SignedTx
  sent : List SubmittedTx

inductive Source : Type
  | receipt
  | endpoints
  deriving DecidableEq, Repr

/-- What gas prices are read for. -/
inductive GasUse : Type
  | call
  | gapFill
  deriving DecidableEq, Repr

/-- The operations of the client's tasks, each atomic.  The submission lock is given up as the call
that holds it returns, with what that reports as sent. -/
inductive ClientOp : Type
  | instant
  | sleepUntil (time : Nat)
  | loadIndex
  | rotate
  | crossCheckDue
  | blockBounds
  | advance (block : Nat) (onlyEndpoint : Bool)
  | confirm (source : Source) (block : Nat)
  | freshHead (endpoint now : Nat)
  | rememberHead (endpoint head askedAt : Nat)
  | forgetHead (endpoint : Nat)
  | getBlockNumber (endpoint : Nat)
  | getLatestBlock (endpoint : Nat)
  | getAgreementDetails (endpoint : Nat) (id : IndexingAgreementId) (block : Nat)
  | getTransactionReceipt (endpoint : Nat) (hash : TxHash)
  | estimateGas (endpoint : Nat) (tx : TransactionRequest)
  | getGasPrices (endpoint : Nat) (for' : GasUse)
  | getPendingCount (endpoint : Nat)
  | sendRawTransaction (endpoint : Nat) (tx : SignedTx)
  | loadNonce
  | storeNonce (nonce : Nat)
  | maxNonce (nonce : Nat)
  | commitNonce (nonce : Nat)
  | lockSubmit (task : TaskId)
  | unlockSubmit (task : TaskId) (reported : Option SubmittedTx)
  | cutOff
  deriving DecidableEq, Repr

/-- The operations that wait for an endpoint or for time to pass, where a task can be dropped. -/
def ClientOp.waits : ClientOp → Bool
  | .sleepUntil _ | .getBlockNumber _ | .getLatestBlock _ | .getAgreementDetails ..
  | .getTransactionReceipt .. | .estimateGas .. | .getGasPrices .. | .getPendingCount _
  | .sendRawTransaction .. => true
  | _ => false

/-- The results of the operations.  An answer that does not decode is `none`. -/
def ClientRes : ClientOp → Type
  | .instant | .loadIndex | .loadNonce => Nat
  | .crossCheckDue | .cutOff => Bool
  | .blockBounds => Nat × Nat
  | .advance .. => Noted
  | .freshHead .. => Option Nat
  | .getBlockNumber _ | .estimateGas .. | .getPendingCount _ => Except TransportError Nat
  | .getLatestBlock _ => Except TransportError (Option (Nat × Nat))
  | .getAgreementDetails .. => Except TransportError (Option UInt16)
  | .getTransactionReceipt .. => Except TransportError (Option Receipt)
  | .getGasPrices .. => Except TransportError (Nat × Nat)
  | .sendRawTransaction .. => Except TransportError Unit
  | _ => Unit

/-- How an operation comes out: of its own, or with what an endpoint answers. -/
inductive ClientChoice : Type
  | ok
  | error (e : TransportError)
  | number (n : Nat)
  | block (block : Option (Nat × Nat))
  | details (state : Option UInt16)
  | receipt (r : Option Receipt)
  | prices (baseFee priorityFee : Nat)
  | cut (stop : Bool)

def ClientChoice.answer {β : Type} (value : ClientChoice → Option β) :
    ClientChoice → Option (Except TransportError β)
  | .error e => some (.error e)
  | c => (value c).map .ok

def ClientChoice.ok? : ClientChoice → Option Unit
  | .ok => some ()
  | _ => none

def ClientChoice.number? : ClientChoice → Option Nat
  | .number n => if n ≤ maxU64 then some n else none
  | _ => none

def ClientChoice.block? : ClientChoice → Option (Option (Nat × Nat))
  | .block b => if b.all fun b => b.1 ≤ maxU64 then some b else none
  | _ => none

def ClientChoice.details? : ClientChoice → Option (Option UInt16)
  | .details state => some state
  | _ => none

def ClientChoice.receipt? : ClientChoice → Option (Option Receipt)
  | .receipt r =>
    if r.all fun r => r.blockNumber.all fun b => b ≤ maxU64 then some r else none
  | _ => none

def ClientChoice.prices? : ClientChoice → Option (Nat × Nat)
  | .prices baseFee priorityFee => some (baseFee, priorityFee)
  | _ => none

def ClientChoice.cut? : ClientChoice → Option Bool
  | .cut stop => some stop
  | _ => none

namespace ClientState

/-- How long a read reuses an endpoint's latest block. -/
def headReuse : Nat := second

/-- The endpoint's latest block, if it was asked for lately. -/
def fresh (s : ClientState) (endpoint now : Nat) : Option Nat :=
  (s.endpointHeads endpoint).bind fun head =>
    if now - head.2 < headReuse then some head.1 else none

/-- Record that `nonce` carried a successful broadcast. -/
def commit (s : ClientState) (nonce : Nat) : ClientState :=
  { s with nonce := max s.nonce ((nonce + 1) % 2 ^ 64) }

/-- The result and effect of an operation, for each way it can come out. -/
def exec (s : ClientState) : (o : ClientOp) → ClientChoice → Option (ClientRes o × ClientState)
  | .instant, c => c.ok?.map fun _ => (s.now, s)
  | .sleepUntil time, c => if time ≤ s.now then c.ok?.map fun _ => ((), s) else none
  | .loadIndex, c => c.ok?.map fun _ => (s.currentIndex, s)
  | .rotate, c => c.ok?.map fun _ => ((), { s with currentIndex := s.currentIndex + 1 })
  | .crossCheckDue, c => c.ok?.map fun _ =>
    let (seen, due) := s.seenBlock.crossCheckDue s.now
    (due, { s with seenBlock := seen })
  | .blockBounds, c => c.ok?.map fun _ => (s.seenBlock.bounds s.now, s)
  | .advance block onlyEndpoint, c => c.ok?.map fun _ =>
    let (seen, noted) := s.seenBlock.advance block s.now onlyEndpoint
    (noted, { s with seenBlock := seen })
  | .confirm _ block, c => c.ok?.map fun _ =>
    ((), { s with seenBlock := s.seenBlock.confirm block s.now })
  | .freshHead endpoint now, c => c.ok?.map fun _ => (s.fresh endpoint now, s)
  | .rememberHead endpoint head askedAt, c => c.ok?.map fun _ =>
    ((), { s with
      endpointHeads := Function.update s.endpointHeads endpoint (some (head, askedAt)) })
  | .forgetHead endpoint, c => c.ok?.map fun _ =>
    ((), { s with endpointHeads := Function.update s.endpointHeads endpoint none })
  | .getBlockNumber _, c => (c.answer ClientChoice.number?).map fun r => (r, s)
  | .getLatestBlock _, c => (c.answer ClientChoice.block?).map fun r => (r, s)
  | .getAgreementDetails .., c => (c.answer ClientChoice.details?).map fun r => (r, s)
  | .getTransactionReceipt .., c => (c.answer ClientChoice.receipt?).map fun r => (r, s)
  | .estimateGas .., c => (c.answer ClientChoice.number?).map fun r => (r, s)
  | .getGasPrices .., c => (c.answer ClientChoice.prices?).map fun r => (r, s)
  | .getPendingCount _, c => (c.answer ClientChoice.number?).map fun r =>
    (r, match r with
      | .ok n => { s with pendingCounts := s.pendingCounts ++ [n] }
      | .error _ => s)
  | .sendRawTransaction _ tx, c => (c.answer ClientChoice.ok?).map fun r =>
    (r, { s with
      handed := s.handed ++ [tx]
      accepted := s.accepted ++ if accepts r then [tx] else [] })
  | .loadNonce, c => c.ok?.map fun _ => (s.nonce, s)
  | .storeNonce nonce, c => c.ok?.map fun _ => ((), { s with nonce := nonce })
  | .maxNonce nonce, c => c.ok?.map fun _ => ((), { s with nonce := max s.nonce nonce })
  | .commitNonce nonce, c => c.ok?.map fun _ => ((), s.commit nonce)
  | .lockSubmit task, c =>
    if s.submitLock = none then c.ok?.map fun _ => ((), { s with submitLock := some task })
    else none
  | .unlockSubmit task reported, c =>
    if s.submitLock = some task then c.ok?.map fun _ =>
      ((), { s with submitLock := none, sent := s.sent ++ reported.toList })
    else none
  | .cutOff, c => c.cut?.map fun stop => (stop, s)

end ClientState

abbrev ClientAct (α : Type) : Type := Concurrent.Prog ClientOp ClientRes α

def ask (o : ClientOp) : ClientAct (ClientRes o) := Concurrent.Prog.perform o

def instant : ClientAct Nat := ask .instant

def sleep (duration : Nat) : ClientAct Unit := do
  let now ← instant
  ask (.sleepUntil (now + duration))

section Pool

variable {β : Type}

def lagPause : Nat := second / 2

def lagRetries : Nat := 2

/-- The delay before a retry: 1 s, 2 s, 4 s, 8 s, 16 s, then 30 s. -/
def backoffDelay (attempt : Nat) : Nat := min (2 ^ min attempt 5) 30 * second

/-- Run a call against one endpoint, with `left` retries for a fault worth another go. -/
def askEndpoint (config : ClientConfig) (f : Nat → ClientAct (Except TransportError β))
    (position : Nat) : Nat → Nat → ClientAct (Except TransportError β)
  | left, lagged => do
    match ← f position with
    | .ok value => return .ok value
    | .error e =>
      match left with
      | 0 => return .error e
      | left + 1 =>
        if e.isBehind && lagged < lagRetries then
          sleep lagPause
          askEndpoint config f position left (lagged + 1)
        else if e.isRetryable then
          sleep (backoffDelay (config.maxRetries - (left + 1)))
          askEndpoint config f position left lagged
        else return .error e

/-- The characters of a text with those of `name` for each occurrence of `url`, which is not empty;
the first `skip` of them are the rest of one. -/
def replaceFrom (url name : List Char) : Nat → List Char → List Char
  | _, [] => []
  | skip + 1, _ :: text => replaceFrom url name skip text
  | 0, c :: text =>
    if url <+: c :: text then name ++ replaceFrom url name (url.length - 1) text
    else c :: replaceFrom url name 0 text

def replaceText (text url name : String) : String :=
  String.ofList (replaceFrom url.toList name.toList 0 text.toList)

/-- How a failure reads once the endpoint's URL, with a trailing slash or without, is taken out. -/
def describeFailure (config : ClientConfig) (position : Nat) (e : TransportError) : String :=
  let url := config.endpointUrl position
  let name := config.endpointName position
  replaceText (replaceText e.text url name) (String.ofList (url.toList.rdropWhile (· = '/'))) name

/-- A contract's rejection that is boxed in. -/
def TransportError.contractRevert? : TransportError → Option ClientError
  | .boxed (.contractRevert selector data) => some (.contractRevert selector data)
  | _ => none

/-- What the pool reports once every endpoint has failed: the first refusal that names a contract's
rejection, or what each endpoint said. -/
def allFailed (config : ClientConfig) (operation : String) (failures : List (Nat × TransportError)) :
    ClientError :=
  let named := failures.findSome? fun failure => failure.2.contractRevert?
  named.getD (.rpcError ("All " ++ toString config.endpoints ++ " RPC providers failed for '" ++
    operation ++ "': " ++ "; ".intercalate (failures.map fun failure =>
      config.endpointName failure.1 ++ ": " ++ describeFailure config failure.1 failure.2)))

/-- Walk the endpoints from position `start` on, `left` more after this one. -/
def walkEndpoints (config : ClientConfig) (operation : String)
    (f : Nat → ClientAct (Except TransportError β)) (start : Nat) :
    Nat → List (Nat × TransportError) → ClientAct (Except ClientError β)
  | left, failures => do
    let position := (start + failures.length) % config.endpoints
    match ← askEndpoint config f position config.maxRetries 0 with
    | .ok value => return .ok value
    | .error e =>
      let failures := failures ++ [(position, e)]
      match left with
      | 0 => return .error (allFailed config operation failures)
      | left + 1 =>
        ask .rotate
        walkEndpoints config operation f start left failures

/-- Run an RPC call, retrying the current endpoint with backoff and then rotating on to the next,
and telling the call which endpoint it is asking. -/
def executeWithEndpoint (config : ClientConfig) (operation : String)
    (f : Nat → ClientAct (Except TransportError β)) : ClientAct (Except ClientError β) := do
  let start ← ask .loadIndex
  walkEndpoints config operation f start (config.endpoints - 1) []

end Pool

end AlloyClient

end Dipper
