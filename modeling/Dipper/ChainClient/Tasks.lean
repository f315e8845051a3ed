import Dipper.ChainClient.Client
import Dipper.Concurrent.System

/-! The chain client's tasks: views of the contract at a block that follows those seen, waits for
receipts, and the transactions it signs and submits one at a time; and the system of any number of
such tasks over any endpoints. -/

namespace Dipper

namespace AlloyClient

open Concurrent

section Reads

def noteBlock (config : ClientConfig) (block : Nat) : ClientAct Unit := do
  let _ ← ask (.advance block (config.endpoints < 2))
  return ()

/-- The latest blocks of endpoints that are asked once; those that fail are left out. -/
def latestBlocks : List Nat → ClientAct (List Nat)
  | [] => return []
  | endpoint :: rest => do
    let answer ← ask (.getBlockNumber endpoint)
    let heads ← latestBlocks rest
    match answer with
    | .ok head => return head :: heads
    | .error _ => return heads

/-- Confirm the newest block seen from the endpoints' own agreement, if that is due. -/
def crossCheckSeenBlock (config : ClientConfig) : ClientAct Unit := do
  if config.endpoints < 2 then return ()
  let due : Bool ← ask .crossCheckDue
  if due then
    let heads ← latestBlocks (List.range config.endpoints)
    match agreedHead heads with
    | some head => ask (.confirm .endpoints head)
    | none => return ()

/-- Refuse an endpoint whose latest block is older than the newest one seen. -/
def refuseBehind (head seen : Nat) : Except TransportError Unit :=
  if seen ≤ head then .ok () else .error (.behind head seen)

/-- Refuse an endpoint whose latest block is too far ahead of the newest one seen to be real. -/
def refuseFarAhead (head seen highest : Nat) : Except TransportError Unit :=
  if head ≤ highest then .ok () else .error (.farAhead head seen)

/-- The endpoint's latest block, reused if fresh and not behind the newest one seen. -/
def latest (endpoint seen : Nat) : ClientAct (Except TransportError Nat) := do
  let now ← instant
  let fresh ← ask (.freshHead endpoint now)
  match fresh.filter fun head => seen ≤ head with
  | some head => return .ok head
  | none =>
    let askedAt ← instant
    match ← ask (.getBlockNumber endpoint) with
    | .error e => return .error e
    | .ok head =>
      ask (.rememberHead endpoint head askedAt)
      return .ok head

/-- Read an agreement's details at the endpoint's latest block, unless that is refused. -/
def readAt (id : IndexingAgreementId) (endpoint head seen highest : Nat) :
    ClientAct (Except TransportError (Option UInt16)) :=
  match refuseBehind head seen with
  | .error e => return .error e
  | .ok _ =>
    match refuseFarAhead head seen highest with
    | .error e => return .error e
    | .ok _ => ask (.getAgreementDetails endpoint id head)

/-- A view's attempt at one endpoint, which is asked afresh if this fails. -/
def viewEndpoint (id : IndexingAgreementId) (seen highest endpoint : Nat) :
    ClientAct (Except TransportError (Nat × Option UInt16)) := do
  match ← latest endpoint seen with
  | .error e => return .error e
  | .ok head =>
    match ← readAt id endpoint head seen highest with
    | .error e =>
      ask (.forgetHead endpoint)
      return .error e
    | .ok output => return .ok (head, output)

/-- The state flags of an agreement, from an endpoint that is not behind a block already seen. -/
def viewAtSeenBlock (config : ClientConfig) (id : IndexingAgreementId) :
    ClientAct (Except ClientError UInt16) := do
  crossCheckSeenBlock config
  let (seen, highest) ← ask .blockBounds
  match ← executeWithEndpoint config "get_agreement_details" (viewEndpoint id seen highest) with
  | .error e => return .error e
  | .ok (head, output) =>
    noteBlock config head
    match output with
    | none =>
      return .error (.rpcError ("undecodable get_agreement_details from " ++
        Address.text config.recurringCollector))
    | some state => return .ok state

def agreementOnChain (config : ClientConfig) (id : IndexingAgreementId) :
    ClientAct (Except ClientError AgreementOnChain) := do
  match ← viewAtSeenBlock config id with
  | .error e => return .error e
  | .ok state => return .ok (onChain state)

/-- The endpoint's latest block, unless it is too far ahead. -/
def latestBlockEndpoint (seen highest endpoint : Nat) :
    ClientAct (Except TransportError (Option (Nat × Nat))) := do
  match ← ask (.getLatestBlock endpoint) with
  | .error e => return .error e
  | .ok none => return .ok none
  | .ok (some block) =>
    match refuseFarAhead block.1 seen highest with
    | .error e => return .error e
    | .ok _ => return .ok (some block)

def latestBlockTimestamp (config : ClientConfig) : ClientAct (Except ClientError Nat) := do
  crossCheckSeenBlock config
  let (seen, highest) ← ask .blockBounds
  match ← executeWithEndpoint config "get_latest_block" (latestBlockEndpoint seen highest) with
  | .error e => return .error e
  | .ok none => return .error (.rpcError "no latest block returned")
  | .ok (some (number, timestamp)) =>
    noteBlock config number
    return .ok timestamp

inductive ReceiptWait : Type
  | mined (success : Bool)
  | notSeen (checked : Bool)
  deriving DecidableEq, Repr

def receiptPollTimeout : Nat := 15 * second

def receiptPollInterval : Nat := second / 2

/-- The polls that fit in before the deadline is reached. -/
def receiptPolls : Nat := receiptPollTimeout / receiptPollInterval + 1

/-- The block of a receipt is one the chain has reached. -/
def confirmReceipt (r : Receipt) : ClientAct Unit :=
  match r.blockNumber with
  | some block => ask (.confirm .receipt block)
  | none => return ()

def pollReceipt (config : ClientConfig) (hash : TxHash) (deadline : Nat) :
    Nat → Bool → ClientAct ReceiptWait
  | 0, checked => return .notSeen checked
  | polls + 1, checked => do
    let receipt ← executeWithEndpoint config "get_transaction_receipt" fun endpoint =>
      ask (.getTransactionReceipt endpoint hash)
    match receipt with
    | .ok (some r) =>
      confirmReceipt r
      return .mined r.status
    | .ok none =>
      if deadline ≤ (← instant) then return .notSeen true
      sleep receiptPollInterval
      pollReceipt config hash deadline polls true
    | .error _ =>
      if deadline ≤ (← instant) then return .notSeen checked
      sleep receiptPollInterval
      pollReceipt config hash deadline polls checked

/-- Ask for the receipt until the transaction has mined or the timeout elapses. -/
def waitForReceipt (config : ClientConfig) (hash : TxHash) (timeout : Nat) :
    ClientAct ReceiptWait := do
  let now ← instant
  pollReceipt config hash (now + timeout) receiptPolls false

end Reads

section Submissions

def nonceErrorPatterns : List String :=
  ["nonce too low", "nonce is too low", "invalid nonce", "replacement transaction underpriced",
    "already known"]

def isNonceError (error : String) : Bool :=
  nonceErrorPatterns.any fun p => hasText error.toLower p

def maxNonceRetries : Nat := 2

def fetchChainNonce (config : ClientConfig) : ClientAct (Except ClientError Nat) :=
  executeWithEndpoint config "get_nonce" fun endpoint => ask (.getPendingCount endpoint)

/-- The slot the next submission should use, read from the chain on first call. -/
def nextNonce (config : ClientConfig) : ClientAct (Except ClientError Nat) := do
  let current : Nat ← ask .loadNonce
  if current ≠ nonceUninitialized then return .ok current
  match ← fetchChainNonce config with
  | .error e => return .error e
  | .ok chainNonce =>
    ask (.storeNonce chainNonce)
    return .ok chainNonce

/-- Ratchet the counter up to the next slot the chain will accept. -/
def resyncNonce (config : ClientConfig) : ClientAct (Except ClientError Unit) := do
  match ← fetchChainNonce config with
  | .error e => return .error e
  | .ok chainNonce =>
    ask (.maxNonce chainNonce)
    return .ok ()

/-- Offer the signed bytes to one endpoint; one that holds them already is as good. -/
def sendEndpoint (signed : SignedTx) (endpoint : Nat) : ClientAct (Except TransportError Unit) := do
  match ← ask (.sendRawTransaction endpoint signed) with
  | .ok _ => return .ok ()
  | .error e => if isAlreadyBroadcast e then return .ok () else return .error e

def namedChain : Option Nat → String
  | some chain => "Some(" ++ toString chain ++ ")"
  | none => "None"

/-- Sign a transaction and broadcast it, if it names the chain and lacks nothing. -/
def sendTransaction (config : ClientConfig) (tx : TransactionRequest) :
    ClientAct (Except ClientError TxHash) := do
  if tx.chainId ≠ some config.chainId then
    return .error (.submitFailed ("refusing to sign for chain " ++ namedChain tx.chainId ++
      " while configured for chain " ++ toString config.chainId))
  match tx.build with
  | none => return .error (.submitFailed "Transaction not ready to send")
  | some signed =>
    match ← executeWithEndpoint config "send_transaction" (sendEndpoint signed) with
    | .ok _ => return .ok (config.txHash signed)
    | .error (.rpcError cause) => return .error (.submitFailed cause)
    | .error e => return .error e

def resyncForAttempt (config : ClientConfig) (left : Nat) : ClientAct (Except ClientError Unit) :=
  if left < maxNonceRetries then resyncNonce config else return .ok ()

/-- Find a nonce the chain will take, with `left` attempts at it. -/
def signAndSendLocked (config : ClientConfig) (tx : TransactionRequest) :
    Nat → ClientAct (Except ClientError SubmittedTx)
  | 0 =>
    return .error (.submitFailed ("Failed to send transaction after " ++ toString maxNonceRetries ++
      " nonce retries"))
  | left + 1 => do
    match ← resyncForAttempt config (left + 1) with
    | .error e => return .error e
    | .ok _ =>
      match ← nextNonce config with
      | .error e => return .error e
      | .ok nonce =>
        match ← sendTransaction config { tx with nonce := some nonce } with
        | .ok hash =>
          ask (.commitNonce nonce)
          return .ok ⟨hash, nonce⟩
        | .error e =>
          if isNonceError e.text && 0 < left then signAndSendLocked config tx left
          else return .error e

/-- Work under the submission lock.  It is given up where a deadline cuts it off, or its task is
dropped, and the lock with it.  `reported` is what its result reports as sent. -/
def underSubmitLock {β : Type} (task : TaskId) (reported : β → Option SubmittedTx)
    (work : ClientAct β) : ClientAct (Option β) := do
  ask (.lockSubmit task)
  let result ← Prog.cutShort (ask .cutOff) ClientOp.waits work
  ask (.unlockSubmit task (result.bind reported))
  return result

def signAndSend (config : ClientConfig) (task : TaskId) (tx : TransactionRequest) :
    ClientAct (Except ClientError SubmittedTx) := do
  match ← underSubmitLock task Except.toOption (signAndSendLocked config tx maxNonceRetries) with
  | some result => return result
  | none =>
    return .error (.submitFailed ("gave up submitting after " ++ toString config.submitDeadlineSecs ++
      "s holding the submission lock"))

def getGasPrices (config : ClientConfig) (for' : GasUse) :
    ClientAct (Except ClientError (Nat × Nat)) :=
  executeWithEndpoint config "get_gas_prices" fun endpoint => ask (.getGasPrices endpoint for')

/-- The self-transfer that fills a slot left empty, at the gas prices of the moment. -/
def fillLocked (config : ClientConfig) (nonce : Nat) : ClientAct (Except ClientError Unit) := do
  match ← getGasPrices config .gapFill with
  | .error e => return .error e
  | .ok (baseFee, priorityFee) =>
    let tx : TransactionRequest :=
      { to' := config.signer
        gasLimit := some 21000
        maxFeePerGas := some (config.calculateMaxFee baseFee priorityFee)
        maxPriorityFeePerGas := some priorityFee
        chainId := some config.chainId
        nonce := some nonce }
    match ← sendTransaction config tx with
    | .ok _ => return .ok ()
    | .error e => if isNonceError e.text then return .ok () else return .error e

/-- Fill a slot left empty by an evicted transaction. -/
def fillNonceGap (config : ClientConfig) (task : TaskId) (nonce : Nat) :
    ClientAct (Option (Except ClientError Unit)) :=
  underSubmitLock task (fun _ => none) (fillLocked config nonce)

def exceedsMaxGasPrice (maxFeePerGas maxGwei : Nat) : Bool := maxGwei * 1000000000 < maxFeePerGas

/-- A gas estimate with its buffer, between the floor and the ceiling. -/
def ClientConfig.gasLimit (config : ClientConfig) (estimated : Nat) : Nat :=
  max config.gasFloor
    (min (config.withBuffer estimated) (saturatingAdd estimated config.gasMaxAddition))

def buildAndSendCall (config : ClientConfig) (task : TaskId) (to' : Address) (call : ManagerCall) :
    ClientAct (Except ClientError SubmittedTx) := do
  let tx : TransactionRequest := { to' := to', input := some call }
  match ← executeWithEndpoint config "estimate_gas" fun endpoint => ask (.estimateGas endpoint tx) with
  | .error e => return .error e
  | .ok estimated =>
    match ← getGasPrices config .call with
    | .error e => return .error e
    | .ok (baseFee, priorityFee) =>
      let maxFeePerGas := config.calculateMaxFee baseFee priorityFee
      if exceedsMaxGasPrice maxFeePerGas config.maxGasPriceGwei then
        return .error (.submitFailed ("Gas price " ++ toString (maxFeePerGas / 1000000000) ++
          " gwei exceeds maximum " ++ toString config.maxGasPriceGwei ++ " gwei"))
      signAndSend config task
        { tx with
          gasLimit := some (config.gasLimit estimated)
          maxFeePerGas := some maxFeePerGas
          maxPriorityFeePerGas := some priorityFee
          chainId := some config.chainId }

/-- Send a call to the manager and wait for its receipt.  A transaction that is not seen in time is
taken for dropped, and its slot is filled. -/
def sendToManager (config : ClientConfig) (task : TaskId) (call : ManagerCall) :
    ClientAct (Except ClientError (Option TxHash)) := do
  match ← buildAndSendCall config task config.recurringAgreementManager call with
  | .error e => return .error e
  | .ok submitted =>
    match ← waitForReceipt config submitted.hash receiptPollTimeout with
    | .mined true => return .ok (some submitted.hash)
    | .mined false => return .error (.txReverted submitted.hash)
    | .notSeen checked =>
      let _ ← fillNonceGap config task submitted.nonce
      return .error (.txDropped submitted.hash checked)

def offerTypeNew : Nat := 1

def offerViaManager (config : ClientConfig) (task : TaskId) (offerData : List UInt8) :
    ClientAct (Except ClientError (Option TxHash)) :=
  sendToManager config task (.offerAgreement config.recurringCollector offerTypeNew offerData)

def cancelViaManager (config : ClientConfig) (task : TaskId) (collector : Address)
    (id : IndexingAgreementId) (versionHash : List UInt8) (options : UInt16) :
    ClientAct (Except ClientError (Option TxHash)) :=
  sendToManager config task (.cancelAgreement collector id versionHash options)

def reconcileProvider (config : ClientConfig) (task : TaskId) (collector provider : Address) :
    ClientAct (Except ClientError (Option TxHash)) :=
  sendToManager config task (.reconcileProvider collector provider)

def reconcileAgreement (config : ClientConfig) (task : TaskId) (collector : Address)
    (id : IndexingAgreementId) : ClientAct (Except ClientError (Option TxHash)) :=
  sendToManager config task (.reconcileAgreement collector id)

end Submissions

section System

inductive ClientCall : Type
  | agreementOnChain (id : IndexingAgreementId)
  | latestBlockTimestamp
  | offerViaManager (offerData : List UInt8)
  | cancelViaManager (collector : Address) (id : IndexingAgreementId) (versionHash : List UInt8)
      (options : UInt16)
  | reconcileProvider (collector provider : Address)
  | reconcileAgreement (collector : Address) (id : IndexingAgreementId)
  deriving DecidableEq, Repr

def ClientCall.run (config : ClientConfig) (task : TaskId) : ClientCall → ClientAct Unit
  | .agreementOnChain id => do let _ ← AlloyClient.agreementOnChain config id; return ()
  | .latestBlockTimestamp => do let _ ← AlloyClient.latestBlockTimestamp config; return ()
  | .offerViaManager offerData => do
    let _ ← AlloyClient.offerViaManager config task offerData; return ()
  | .cancelViaManager collector id versionHash options => do
    let _ ← AlloyClient.cancelViaManager config task collector id versionHash options; return ()
  | .reconcileProvider collector provider => do
    let _ ← AlloyClient.reconcileProvider config task collector provider; return ()
  | .reconcileAgreement collector id => do
    let _ ← AlloyClient.reconcileAgreement config task collector id; return ()

/-- What moves outside the client: the clock, and the chain's head. -/
inductive ClientOutside : Type
  | clock (now : Nat)
  | head (block : Nat)

def ClientOutside.move (s : ClientState) : ClientOutside → Option ClientState
  | .clock now => if s.now ≤ now then some { s with now := now } else none
  | .head block => if s.trueHead ≤ block then some { s with trueHead := block } else none

/-- Any number of tasks over one client, each with an id of its own, with a condition under which
they take their operations. -/
def client (config : ClientConfig)
    (allow : ClientState → TaskId → ClientOp → ClientChoice → Prop) :
    Concurrent.System ClientState TaskId ClientOp ClientRes Unit ClientChoice
      (TaskId × ClientCall) ClientOutside where
  exec := ClientState.exec
  start _ seed := some ⟨seed.1, seed.2.run config seed.1⟩
  env := ClientOutside.move
  allow := allow
  exclusive _ := true
  drops := true

def ClientState.new (now trueHead : Nat) : ClientState where
  now := now
  trueHead := trueHead
  seenBlock := { movedAt := now }
  endpointHeads _ := none
  currentIndex := 0
  nonce := nonceUninitialized
  submitLock := none
  pendingCounts := []
  handed := []
  accepted := []
  sent := []

abbrev ClientMoves : Type := List (Move ClientChoice (TaskId × ClientCall) ClientOutside)

/-- The operations of the task at position `i`, by what they come out with. -/
def takes (i : Nat) (choices : List ClientChoice) : ClientMoves := choices.map (.op i)

theorem exists_run (config : ClientConfig)
    (allow : ClientState → TaskId → ClientOp → ClientChoice → Prop)
    [∀ s t o choice, Decidable (allow s t o choice)] (c : (client config allow).Config)
    (l : ClientMoves) (p : (client config allow).Config → Bool)
    (h : ((client config allow).runMoves (fun s t o choice => allow s t o choice) c l).any p =
      true) : ∃ c', (client config allow).Run c c' ∧ p c' = true := by
  refine System.exists_run_of_moves (fun s t o choice hAllow => ?_) l p h
  exact of_decide_eq_true (p := allow s t o choice) hAllow

/-- A client of some endpoints that pays the base fee and the tip, up to 100 gwei. -/
def sampleClient (others : Nat) : ClientConfig where
  endpoints := others + 1
  nonempty := Nat.succ_pos others
  endpointUrl endpoint := "http://" ++ toString endpoint ++ "/"
  endpointName := toString
  maxRetries := 0
  chainId := 1
  signer := 7
  recurringCollector := 8
  recurringAgreementManager := 9
  calculateMaxFee baseFee priorityFee := baseFee + priorityFee
  maxGasPriceGwei := 100
  withBuffer gas := gas
  gasFloor := 21000
  gasMaxAddition := 0
  submitDeadlineSecs := 60
  txHash tx := toString tx.nonce

end System

end AlloyClient

end Dipper
