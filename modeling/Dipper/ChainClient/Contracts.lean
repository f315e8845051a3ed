import Dipper.ChainClient.Effects
import Dipper.ChainClient.Tasks
import Dipper.Concurrent.Discipline

/-! How the pool's walk over the endpoints and the submission lock keep to a discipline: what one
attempt at one endpoint keeps and returns, the whole walk does. -/

namespace Dipper

namespace AlloyClient

open Concurrent

def ClientOp.ofPool : ClientOp → Prop
  | .instant | .sleepUntil _ | .loadIndex | .rotate => True
  | _ => False

def ClientOp.ofReceipts : ClientOp → Prop
  | .getTransactionReceipt .. | .confirm .receipt _ => True
  | o => o.ofPool

def ClientOp.ofChecks : ClientOp → Prop
  | .crossCheckDue | .getBlockNumber _ | .confirm .endpoints _ => True
  | _ => False

def ClientOp.ofHeads : ClientOp → Prop
  | .instant | .freshHead .. | .getBlockNumber _ | .rememberHead .. => True
  | _ => False

def ClientOp.ofReads (config : ClientConfig) : ClientOp → Prop
  | .blockBounds | .freshHead .. | .rememberHead .. | .forgetHead _ | .getBlockNumber _
  | .getLatestBlock _ | .getAgreementDetails .. => True
  | .advance _ onlyEndpoint => onlyEndpoint = decide (config.endpoints < 2)
  | o => o.ofPool

/-- The operations of a call but for those under the submission lock. -/
def ClientOp.ofCalls : ClientOp → Prop
  | .estimateGas .. | .getGasPrices _ .call => True
  | o => o.ofReceipts

def ClientOp.ofNonces : ClientOp → Prop
  | .getPendingCount _ | .loadNonce | .storeNonce _ | .maxNonce _ => True
  | o => o.ofPool

/-- The operations under the submission lock up to the commit of a nonce. -/
def ClientOp.ofAttempts : ClientOp → Prop
  | .getGasPrices .. | .sendRawTransaction .. => True
  | o => o.ofNonces

def ClientOp.ofWork : ClientOp → Prop
  | .commitNonce _ => True
  | o => o.ofAttempts

def ClientOp.ofSubmissions : ClientOp → Prop
  | .estimateGas .. | .lockSubmit _ | .unlockSubmit .. | .cutOff => True
  | o => o.ofWork

section OnlyOps

variable {β : Type} {config : ClientConfig} {O : ClientOp → Prop}

theorem onlyOps_sleep (hPool : ∀ o : ClientOp, o.ofPool → O o) (duration : Nat) :
    (sleep duration).OnlyOps O :=
  .ask (hPool .instant trivial) fun _ => .perform (hPool (.sleepUntil _) trivial)

variable {f : Nat → ClientAct (Except TransportError β)}

theorem onlyOps_askEndpoint (hPool : ∀ o : ClientOp, o.ofPool → O o)
    (hf : ∀ endpoint, (f endpoint).OnlyOps O) (position left lagged : Nat) :
    (askEndpoint config f position left lagged).OnlyOps O := by
  induction left generalizing lagged with
  | zero =>
    unfold askEndpoint
    refine (hf position).bind fun r => ?_
    cases r <;> exact .pure _
  | succ left ih =>
    unfold askEndpoint
    refine (hf position).bind fun r => ?_
    cases r with
    | ok value => exact .pure _
    | error e =>
      dsimp only
      split
      · exact (onlyOps_sleep hPool _).bind fun _ => ih _
      · split
        · exact (onlyOps_sleep hPool _).bind fun _ => ih _
        · exact .pure _

theorem onlyOps_walkEndpoints (hPool : ∀ o : ClientOp, o.ofPool → O o)
    (hf : ∀ endpoint, (f endpoint).OnlyOps O) (operation : String) (start left : Nat)
    (failures : List (Nat × TransportError)) :
    (walkEndpoints config operation f start left failures).OnlyOps O := by
  induction left generalizing failures with
  | zero =>
    unfold walkEndpoints
    refine (onlyOps_askEndpoint hPool hf _ _ _).bind fun r => ?_
    cases r <;> exact .pure _
  | succ left ih =>
    unfold walkEndpoints
    refine (onlyOps_askEndpoint hPool hf _ _ _).bind fun r => ?_
    cases r with
    | ok value => exact .pure _
    | error e => exact .ask (hPool .rotate trivial) fun _ => ih _

theorem onlyOps_executeWithEndpoint (hPool : ∀ o : ClientOp, o.ofPool → O o)
    (hf : ∀ endpoint, (f endpoint).OnlyOps O) (operation : String) :
    (executeWithEndpoint config operation f).OnlyOps O :=
  .ask (hPool .loadIndex trivial) fun _ => onlyOps_walkEndpoints hPool hf _ _ _ _

theorem ofReceipts_of_ofPool (o : ClientOp) (h : o.ofPool) : o.ofReceipts := by
  cases o <;> trivial

theorem ofReads_of_ofPool (o : ClientOp) (h : o.ofPool) : o.ofReads config := by
  cases o <;> trivial

theorem ofReads_of_ofHeads (o : ClientOp) (h : o.ofHeads) : o.ofReads config := by
  cases o <;> trivial

theorem ofCalls_of_ofReceipts (o : ClientOp) (h : o.ofReceipts) : o.ofCalls := by
  cases o <;> trivial

theorem ofCalls_of_ofPool (o : ClientOp) (h : o.ofPool) : o.ofCalls :=
  ofCalls_of_ofReceipts o (ofReceipts_of_ofPool o h)

theorem ofNonces_of_ofPool (o : ClientOp) (h : o.ofPool) : o.ofNonces := by
  cases o <;> trivial

theorem ofAttempts_of_ofNonces (o : ClientOp) (h : o.ofNonces) : o.ofAttempts := by
  cases o <;> trivial

theorem ofWork_of_ofAttempts (o : ClientOp) (h : o.ofAttempts) : o.ofWork := by
  cases o <;> trivial

theorem ofWork_of_ofNonces (o : ClientOp) (h : o.ofNonces) : o.ofWork :=
  ofWork_of_ofAttempts o (ofAttempts_of_ofNonces o h)

theorem ofSubmissions_of_ofWork (o : ClientOp) (h : o.ofWork) : o.ofSubmissions := by
  cases o <;> trivial

theorem ofWork_of_ofPool (o : ClientOp) (h : o.ofPool) : o.ofWork :=
  ofWork_of_ofNonces o (ofNonces_of_ofPool o h)

theorem ofSubmissions_of_ofPool (o : ClientOp) (h : o.ofPool) : o.ofSubmissions :=
  ofSubmissions_of_ofWork o (ofWork_of_ofPool o h)

theorem onlyOps_latestBlocks (hO : ∀ endpoint, O (.getBlockNumber endpoint))
    (endpoints : List Nat) : (latestBlocks endpoints).OnlyOps O := by
  induction endpoints with
  | nil => exact .pure _
  | cons endpoint rest ih =>
    refine .ask (hO endpoint) fun answer => ih.bind fun heads => ?_
    cases answer <;> exact .pure _

theorem onlyOps_crossCheckSeenBlock : (crossCheckSeenBlock config).OnlyOps ClientOp.ofChecks := by
  unfold crossCheckSeenBlock
  split
  · exact .pure _
  · refine .ask trivial fun due => ?_
    split
    · refine (onlyOps_latestBlocks (fun _ => trivial) _).bind fun heads => ?_
      split
      · exact .perform trivial
      · exact .pure _
    · exact .pure _

theorem onlyOps_noteBlock (block : Nat) : (noteBlock config block).OnlyOps (ClientOp.ofReads config) :=
  .ask rfl fun _ => .pure _

theorem onlyOps_readAt (hO : ∀ endpoint id block, O (.getAgreementDetails endpoint id block))
    (id : IndexingAgreementId) (endpoint head seen highest : Nat) :
    (readAt id endpoint head seen highest).OnlyOps O := by
  unfold readAt
  split
  · exact .pure _
  · split
    · exact .pure _
    · exact .perform (hO _ _ _)

theorem onlyOps_latest (endpoint seen : Nat) : (latest endpoint seen).OnlyOps ClientOp.ofHeads := by
  refine .ask trivial fun now => .ask trivial fun fresh => ?_
  split
  · exact .pure _
  · refine .ask trivial fun askedAt => .ask trivial fun r => ?_
    cases r with
    | error e => exact .pure _
    | ok head => exact .ask trivial fun _ => .pure _

theorem onlyOps_viewEndpoint (id : IndexingAgreementId) (seen highest endpoint : Nat) :
    (viewEndpoint id seen highest endpoint).OnlyOps (ClientOp.ofReads config) := by
  refine ((onlyOps_latest endpoint seen).mono ofReads_of_ofHeads).bind fun r => ?_
  cases r with
  | error e => exact .pure _
  | ok head =>
    refine (onlyOps_readAt (fun _ _ _ => trivial) id endpoint head seen highest).bind fun r => ?_
    cases r with
    | error e => exact .ask trivial fun _ => .pure _
    | ok output => exact .pure _

theorem onlyOps_latestBlockEndpoint (hO : ∀ endpoint, O (.getLatestBlock endpoint))
    (seen highest endpoint : Nat) : (latestBlockEndpoint seen highest endpoint).OnlyOps O := by
  refine .ask (hO endpoint) fun r => ?_
  match r with
  | .error _ => exact .pure _
  | .ok none => exact .pure _
  | .ok (some block) =>
    dsimp only
    split <;> exact .pure _

theorem onlyOps_confirmReceipt (r : Receipt) : (confirmReceipt r).OnlyOps ClientOp.ofReceipts := by
  unfold confirmReceipt
  split
  · exact .perform trivial
  · exact .pure _

theorem onlyOps_pollReceipt (hash : TxHash) (deadline polls : Nat) (checked : Bool) :
    (pollReceipt config hash deadline polls checked).OnlyOps ClientOp.ofReceipts := by
  induction polls generalizing checked with
  | zero => exact .pure _
  | succ polls ih =>
    have hAgain : ∀ checked, (do
        if deadline ≤ (← instant) then return .notSeen checked
        sleep receiptPollInterval
        pollReceipt config hash deadline polls checked : ClientAct ReceiptWait).OnlyOps
          ClientOp.ofReceipts := by
      intro checked
      refine .ask trivial fun now => ?_
      split
      · exact .pure _
      · exact (onlyOps_sleep ofReceipts_of_ofPool _).bind fun _ => ih checked
    unfold pollReceipt
    refine (onlyOps_executeWithEndpoint ofReceipts_of_ofPool (fun _ => .perform trivial) _).bind
      fun r => ?_
    match r with
    | .ok (some r) => exact (onlyOps_confirmReceipt r).bind fun _ => .pure _
    | .ok none => exact hAgain true
    | .error _ => exact hAgain checked

theorem onlyOps_waitForReceipt (hash : TxHash) (timeout : Nat) :
    (waitForReceipt config hash timeout).OnlyOps ClientOp.ofReceipts :=
  .ask trivial fun _ => onlyOps_pollReceipt _ _ _ _

theorem onlyOps_sendTransaction (hPool : ∀ o : ClientOp, o.ofPool → O o) {tx : TransactionRequest}
    (hSend : ∀ endpoint signed, tx.build = some signed → O (.sendRawTransaction endpoint signed)) :
    (sendTransaction config tx).OnlyOps O := by
  unfold sendTransaction
  split
  · exact .pure _
  · split
    · exact .pure _
    · rename_i signed hBuild
      have hEndpoint : ∀ endpoint, (sendEndpoint signed endpoint).OnlyOps O := by
        intro endpoint
        refine .ask (hSend endpoint signed hBuild) fun r => ?_
        cases r with
        | ok _ => exact .pure _
        | error e =>
          dsimp only
          split <;> exact .pure _
      refine (onlyOps_executeWithEndpoint hPool hEndpoint _).bind fun r => ?_
      split <;> exact .pure _

theorem onlyOps_fetchChainNonce : (fetchChainNonce config).OnlyOps ClientOp.ofNonces :=
  onlyOps_executeWithEndpoint ofNonces_of_ofPool (fun _ => .perform trivial) _

theorem onlyOps_nextNonce : (nextNonce config).OnlyOps ClientOp.ofNonces := by
  refine .ask trivial fun current => ?_
  split
  · exact .pure _
  · refine onlyOps_fetchChainNonce.bind fun r => ?_
    cases r with
    | error e => exact .pure _
    | ok n => exact .ask trivial fun _ => .pure _

theorem onlyOps_resyncForAttempt (left : Nat) :
    (resyncForAttempt config left).OnlyOps ClientOp.ofNonces := by
  unfold resyncForAttempt
  split
  · refine onlyOps_fetchChainNonce.bind fun r => ?_
    cases r with
    | error e => exact .pure _
    | ok n => exact .ask trivial fun _ => .pure _
  · exact .pure _

theorem onlyOps_signAndSendLocked (hNonces : ∀ o : ClientOp, o.ofNonces → O o)
    (hCommit : ∀ nonce, O (.commitNonce nonce)) {tx : TransactionRequest}
    (hSend : ∀ nonce endpoint signed, { tx with nonce := some nonce }.build = some signed →
      O (.sendRawTransaction endpoint signed)) (left : Nat) :
    (signAndSendLocked config tx left).OnlyOps O := by
  induction left with
  | zero => exact .pure _
  | succ left ih =>
    unfold signAndSendLocked
    refine ((onlyOps_resyncForAttempt _).mono hNonces).bind fun synced => ?_
    cases synced with
    | error e => exact .pure _
    | ok _ =>
      refine (onlyOps_nextNonce.mono hNonces).bind fun r => ?_
      cases r with
      | error e => exact .pure _
      | ok nonce =>
        refine (onlyOps_sendTransaction (fun o ho => hNonces o (ofNonces_of_ofPool o ho))
          (hSend nonce)).bind fun r => ?_
        cases r with
        | ok hash => exact .ask (hCommit _) fun _ => .pure _
        | error e =>
          dsimp only
          split
          · exact ih
          · exact .pure _

theorem onlyOps_fillLocked (hPool : ∀ o : ClientOp, o.ofPool → O o)
    (hGas : ∀ endpoint, O (.getGasPrices endpoint .gapFill))
    (hSend : ∀ endpoint signed, O (.sendRawTransaction endpoint signed)) (nonce : Nat) :
    (fillLocked config nonce).OnlyOps O := by
  refine (onlyOps_executeWithEndpoint hPool (fun endpoint => .perform (hGas endpoint)) _).bind
    fun r => ?_
  cases r with
  | error e => exact .pure _
  | ok prices =>
    refine (onlyOps_sendTransaction hPool fun endpoint signed _ => hSend endpoint signed).bind
      fun r => ?_
    cases r with
    | ok hash => exact .pure _
    | error e =>
      dsimp only
      split <;> exact .pure _

theorem onlyOps_underSubmitLock {task : TaskId} {reported : β → Option SubmittedTx}
    {work : ClientAct β} (h : work.OnlyOps ClientOp.ofWork) :
    (underSubmitLock task reported work).OnlyOps ClientOp.ofSubmissions :=
  .ask trivial fun _ => (Prog.OnlyOps.cutShort (.perform trivial)
    (h.mono ofSubmissions_of_ofWork)).bind fun _ => .ask trivial fun _ => .pure _

theorem onlyOps_buildAndSendCall {task : TaskId} {to' : Address} {call : ManagerCall} :
    (buildAndSendCall config task to' call).OnlyOps ClientOp.ofSubmissions := by
  refine (onlyOps_executeWithEndpoint ofSubmissions_of_ofPool (fun _ => .perform trivial) _).bind
    fun r => ?_
  cases r with
  | error e => exact .pure _
  | ok estimated =>
    refine (onlyOps_executeWithEndpoint ofSubmissions_of_ofPool (fun _ => .perform trivial) _).bind
      fun r => ?_
    cases r with
    | error e => exact .pure _
    | ok prices =>
      dsimp only
      split
      · exact .pure _
      · refine (onlyOps_underSubmitLock (onlyOps_signAndSendLocked ofWork_of_ofNonces
          (fun _ => trivial) (fun _ _ _ _ => trivial) _)).bind fun r => ?_
        cases r <;> exact .pure _

theorem onlyOps_fillNonceGap {task : TaskId} {nonce : Nat} :
    (fillNonceGap config task nonce).OnlyOps ClientOp.ofSubmissions :=
  onlyOps_underSubmitLock (onlyOps_fillLocked ofWork_of_ofPool (fun _ => trivial)
    (fun _ _ => trivial) nonce)

end OnlyOps

section Pool

variable {α β : Type} {config : ClientConfig}
  {S : System ClientState TaskId ClientOp ClientRes Unit ClientChoice (TaskId × ClientCall)
    ClientOutside}
  {D : Discipline ClientState TaskId ClientOp} {t : TaskId} {P : ClientState → Prop}
  {Q : β → ClientState → Prop} {s : ClientState}

/-- A property of the state that a task can count on while the pool walks the endpoints. -/
structure Lasts (D : Discipline ClientState TaskId ClientOp)
    (S : System ClientState TaskId ClientOp ClientRes Unit ClientChoice (TaskId × ClientCall)
      ClientOutside) (t : TaskId) (P : ClientState → Prop) : Prop where
  sound : D.Sound S
  stable : ∀ {s s'}, D.inv s' → D.rely t s s' → P s → P s'
  pre : ∀ o, o.ofPool → ∀ s, D.inv s → P s → D.pre t s o
  keeps : ∀ {s o r s'}, o.ofPool → S.Performs t s o r s' → P s → P s'

/-- What holds of an answer holds whatever the other tasks do. -/
def Stays (D : Discipline ClientState TaskId ClientOp) (t : TaskId)
    (Q : β → ClientState → Prop) : Prop :=
  ∀ value s s', D.inv s' → D.rely t s s' → Q value s → Q value s'

def Answers {ε : Type} (P : ClientState → Prop) (Q : β → ClientState → Prop) (r : Except ε β)
    (s : ClientState) : Prop :=
  P s ∧ ∀ value, r = .ok value → Q value s

theorem Lasts.of_onlyOps (hP : Lasts D S t P) {p : ClientAct α} (hp : p.OnlyOps ClientOp.ofPool)
    (h : P s) : D.Keeps S t (fun _ => P) p s :=
  .under hP.sound hP.stable hP.pre hP.keeps hp h

theorem Lasts.ask (hP : Lasts D S t P) (o : ClientOp) (ho : o.ofPool) (h : P s) :
    D.Keeps S t (fun _ => P) (ask o) s :=
  hP.of_onlyOps (.perform ho) h

theorem Lasts.sleep (hP : Lasts D S t P) (duration : Nat) (h : P s) :
    D.Keeps S t (fun _ => P) (sleep duration) s :=
  hP.of_onlyOps (.ask trivial fun _ => .perform trivial) h

theorem Lasts.error {ε : Type} (hP : Lasts D S t P) {e : ε} (h : P s) :
    D.Keeps S t (Answers P Q) (pure (.error e)) s :=
  .ret fun _ hInv hRely => ⟨hP.stable hInv hRely h, nofun⟩

theorem Lasts.ok {ε : Type} (hP : Lasts D S t P) (hQ : Stays D t Q) {value : β} (h : P s)
    (hValue : Q value s) : D.Keeps S t (Answers (ε := ε) P Q) (pure (.ok value)) s := by
  refine .ret fun s' hInv hRely => ⟨hP.stable hInv hRely h, fun value' hEq => ?_⟩
  obtain rfl := Except.ok.inj hEq
  exact hQ _ s s' hInv hRely hValue

variable (hP : Lasts D S t P) (hQ : Stays D t Q)
  {f : Nat → ClientAct (Except TransportError β)}
  (hf : ∀ endpoint s, P s → D.Keeps S t (Answers P Q) (f endpoint) s)

include hP hQ hf

/-- An endpoint's attempts, by induction on the retries left. -/
theorem keeps_askEndpoint (position left lagged : Nat) (h : P s) :
    D.Keeps S t (Answers P Q) (askEndpoint config f position left lagged) s := by
  induction left generalizing lagged s with
  | zero =>
    unfold askEndpoint
    refine .bind hP.sound ((hf position s h).mono fun r s1 _ hr => ?_)
    cases r with
    | ok value => exact hP.ok hQ hr.1 (hr.2 value rfl)
    | error e => exact hP.error hr.1
  | succ left ih =>
    unfold askEndpoint
    refine .bind hP.sound ((hf position s h).mono fun r s1 _ hr => ?_)
    cases r with
    | ok value => exact hP.ok hQ hr.1 (hr.2 value rfl)
    | error e =>
      dsimp only
      split
      · refine .bind hP.sound ((hP.sleep lagPause hr.1).mono fun _ s2 _ h2 => ?_)
        exact ih (lagged + 1) h2
      · split
        · refine .bind hP.sound ((hP.sleep _ hr.1).mono fun _ s2 _ h2 => ?_)
          exact ih lagged h2
        · exact hP.error hr.1

/-- The walk, by induction on the endpoints left. -/
theorem keeps_walkEndpoints (operation : String) (start left : Nat)
    (failures : List (Nat × TransportError)) (h : P s) :
    D.Keeps S t (Answers P Q) (walkEndpoints config operation f start left failures) s := by
  induction left generalizing failures s with
  | zero =>
    unfold walkEndpoints
    refine .bind hP.sound ((keeps_askEndpoint hP hQ hf _ _ _ h).mono fun r s1 _ hr => ?_)
    cases r with
    | ok value => exact hP.ok hQ hr.1 (hr.2 value rfl)
    | error e => exact hP.error hr.1
  | succ left ih =>
    unfold walkEndpoints
    refine .bind hP.sound ((keeps_askEndpoint hP hQ hf _ _ _ h).mono fun r s1 _ hr => ?_)
    cases r with
    | ok value => exact hP.ok hQ hr.1 (hr.2 value rfl)
    | error e =>
      refine .bind hP.sound ((hP.ask .rotate trivial hr.1).mono fun _ s2 _ h2 => ?_)
      exact ih _ h2

theorem keeps_executeWithEndpoint (operation : String) (h : P s) :
    D.Keeps S t (Answers P Q) (executeWithEndpoint config operation f) s := by
  unfold executeWithEndpoint
  refine .bind hP.sound ((hP.ask .loadIndex trivial h).mono fun start s1 _ h1 => ?_)
  exact keeps_walkEndpoints hP hQ hf operation start _ [] h1

end Pool

section Calls

variable {config : ClientConfig} {D : Discipline ClientState TaskId ClientOp}
  {allow : ClientState → TaskId → ClientOp → ClientChoice → Prop} {t : TaskId} {s s' : ClientState}

theorem effect_of_performs {o : ClientOp} {r : ClientRes o}
    (h : (client config allow).Performs t s o r s') : ClientEffect s s' o := by
  obtain ⟨c, -, hExec⟩ := h
  exact exec_clientEffect hExec

theorem move_cases {e : ClientOutside} (h : e.move s = some s') :
    (∃ now, s.now ≤ now ∧ s' = { s with now := now }) ∨
    (∃ head, s.trueHead ≤ head ∧ s' = { s with trueHead := head }) := by
  cases e with
  | clock now =>
    obtain ⟨hLater, h⟩ := Option.ite_none_right_eq_some.mp h
    exact .inl ⟨now, hLater, (Option.some.inj h).symm⟩
  | head block =>
    obtain ⟨hHigher, h⟩ := Option.ite_none_right_eq_some.mp h
    exact .inr ⟨block, hHigher, (Option.some.inj h).symm⟩

theorem keeps_agreementOnChain (hD : D.Sound (client config allow))
    (hPre : ∀ o : ClientOp, o.ofReads config → ∀ s, D.inv s → D.pre t s o)
    (hCheck : ∀ s, D.Keeps (client config allow) t (fun _ _ => True) (crossCheckSeenBlock config) s)
    (id : IndexingAgreementId) :
    D.Keeps (client config allow) t (fun _ _ => True) (agreementOnChain config id) s := by
  have hReads : ∀ {β : Type} {p : ClientAct β} {s}, p.OnlyOps (ClientOp.ofReads config) →
      D.Keeps (client config allow) t (fun _ _ => True) p s := .of_onlyOps hD hPre
  have hBounds : (ask .blockBounds).OnlyOps (ClientOp.ofReads config) := .perform trivial
  have hView : D.Keeps (client config allow) t (fun _ _ => True) (viewAtSeenBlock config id) s := by
    unfold viewAtSeenBlock
    refine .bind hD ((hCheck s).mono fun _ s1 _ _ => ?_)
    refine .bind hD ((hReads hBounds).mono fun bounds s2 _ _ => ?_)
    refine .bind hD ((hReads (onlyOps_executeWithEndpoint ofReads_of_ofPool
      (onlyOps_viewEndpoint id _ _) _)).mono fun r s3 _ _ => ?_)
    cases r with
    | error e => exact .ret fun _ _ _ => trivial
    | ok answer =>
      refine .bind hD ((hReads (onlyOps_noteBlock _)).mono fun _ s4 _ _ => ?_)
      split <;> exact .ret fun _ _ _ => trivial
  refine .bind hD (hView.mono fun r _ _ _ => ?_)
  cases r <;> exact .ret fun _ _ _ => trivial

theorem keeps_latestBlockTimestamp (hD : D.Sound (client config allow))
    (hPre : ∀ o : ClientOp, o.ofReads config → ∀ s, D.inv s → D.pre t s o)
    (hCheck : ∀ s, D.Keeps (client config allow) t (fun _ _ => True) (crossCheckSeenBlock config) s) :
    D.Keeps (client config allow) t (fun _ _ => True) (latestBlockTimestamp config) s := by
  refine .bind hD ((hCheck s).mono fun _ s1 _ _ => .of_onlyOps hD hPre ?_)
  refine .ask trivial fun bounds => ?_
  refine (onlyOps_executeWithEndpoint ofReads_of_ofPool
    (onlyOps_latestBlockEndpoint (fun _ => trivial) _ _) _).bind fun r => ?_
  match r with
  | .error _ => exact .pure _
  | .ok none => exact .pure _
  | .ok (some _) => exact (onlyOps_noteBlock _).bind fun _ => .pure _

/-- Work under the submission lock keeps to the discipline, wherever it is cut short, if it does so
while what the lock protects lasts; `P` is where it may be cut short, and `R` how it ends. -/
theorem keeps_underSubmitLock {β : Type} {P : ClientState → Prop} {Q : ClientOp → Prop}
    {R : β → ClientState → Prop} {reported : β → Option SubmittedTx}
    (hD : D.Sound (client config allow))
    (hLock : ∀ s, D.inv s → D.pre t s (.lockSubmit t))
    (hLocked : ∀ s : ClientState, D.inv s → s.submitLock = none → P { s with submitLock := some t })
    (hCut : ∀ s, D.inv s → D.pre t s .cutOff)
    (hGivenUp : ∀ s, D.inv s → P s → D.pre t s (.unlockSubmit t none))
    (hUnlock : ∀ b s, D.inv s → R b s → D.pre t s (.unlockSubmit t (reported b)))
    (hStable : ∀ {s s'}, D.inv s' → D.rely t s s' → P s → P s')
    (hStays : ∀ {b s s'}, D.inv s' → D.rely t s s' → R b s → R b s')
    (hOp : ∀ {s o r s'}, Q o → D.inv s → D.pre t s o →
      (client config allow).Performs t s o r s' → P s → P s') {work : ClientAct β}
    (hSettles : work.Settles ClientOp.waits Q)
    (hWork : ∀ s, P s → D.Keeps (client config allow) t R work s) :
    D.Keeps (client config allow) t (fun _ _ => True) (underSubmitLock t reported work) s := by
  have hCutOff : ∀ s, D.Keeps (client config allow) t (fun _ s' => D.rely t s s') (ask .cutOff) s := by
    intro s
    refine .perform hD fun s1 hInv1 hRely1 => ⟨hCut s1 hInv1, ?_⟩
    intro (stop : Bool) s2 hPerforms s3 _ hRely3
    obtain rfl : s2 = s1 := effect_of_performs hPerforms
    exact hD.trans hRely1 hRely3
  unfold underSubmitLock
  refine .bind hD (.perform hD fun s1 hInv1 _ => ⟨hLock s1 hInv1, ?_⟩)
  intro (_ : Unit) s2 hPerforms s3 hInv3 hRely3
  obtain ⟨hFree, rfl⟩ := effect_of_performs hPerforms
  have hHeld : P s3 := hStable hInv3 hRely3 (hLocked s1 hInv1 hFree)
  refine .bind hD ((Discipline.Keeps.cutShort hD hCutOff hStable hOp hSettles (hWork s3 hHeld)
    hHeld).mono fun result s4 _ h4 => ?_)
  refine .bind hD (.perform hD fun s5 hInv5 hRely5 => ⟨?_, fun _ _ _ _ _ _ =>
    .ret fun _ _ _ => trivial⟩)
  cases result with
  | none => exact hGivenUp s5 hInv5 (hStable hInv5 hRely5 (h4.1 rfl))
  | some b => exact hUnlock b s5 hInv5 (hStays hInv5 hRely5 (h4.2 b rfl))

/-- What is sent to the manager, by its parts under the submission lock.  A call is signed for a fee
within the limit only. -/
theorem keeps_sendToManager (hD : D.Sound (client config allow))
    (hPre : ∀ o : ClientOp, o.ofCalls → ∀ s, D.inv s → D.pre t s o)
    (hSend : ∀ tx s, tx.input.isSome = true →
      (∀ fee ∈ tx.maxFeePerGas, exceedsMaxGasPrice fee config.maxGasPriceGwei = false) →
      D.Keeps (client config allow) t (fun _ _ => True)
        (underSubmitLock t Except.toOption (signAndSendLocked config tx maxNonceRetries)) s)
    (hFill : ∀ nonce s, D.Keeps (client config allow) t (fun _ _ => True)
      (fillNonceGap config t nonce) s) (call : ManagerCall) :
    D.Keeps (client config allow) t (fun _ _ => True) (sendToManager config t call) s := by
  have hOnly : ∀ {β : Type} {p : ClientAct β} {s}, p.OnlyOps ClientOp.ofCalls →
      D.Keeps (client config allow) t (fun _ _ => True) p s := .of_onlyOps hD hPre
  have hBuild : ∀ s, D.Keeps (client config allow) t (fun _ _ => True)
      (buildAndSendCall config t config.recurringAgreementManager call) s := by
    intro s
    unfold buildAndSendCall
    refine .bind hD ((hOnly (onlyOps_executeWithEndpoint ofCalls_of_ofPool
      (fun _ => .perform trivial) _)).mono fun r s1 _ _ => ?_)
    cases r with
    | error e => exact .ret fun _ _ _ => trivial
    | ok estimated =>
      refine .bind hD ((hOnly (onlyOps_executeWithEndpoint ofCalls_of_ofPool
        (fun _ => .perform trivial) _)).mono fun r s2 _ _ => ?_)
      cases r with
      | error e => exact .ret fun _ _ _ => trivial
      | ok prices =>
        dsimp only
        split
        · exact .ret fun _ _ _ => trivial
        · rename_i hWithin
          refine .bind hD ((hSend _ s2 rfl fun fee hFee => ?_).mono fun r _ _ _ => ?_)
          · obtain rfl := Option.some.inj hFee
            exact Bool.eq_false_iff.mpr hWithin
          · cases r <;> exact .ret fun _ _ _ => trivial
  refine .bind hD ((hBuild s).mono fun r s1 _ _ => ?_)
  cases r with
  | error e => exact .ret fun _ _ _ => trivial
  | ok submitted =>
    refine .bind hD ((hOnly ((onlyOps_waitForReceipt _ _).mono ofCalls_of_ofReceipts)).mono
      fun wait s2 _ _ => ?_)
    match wait with
    | .mined true => exact .ret fun _ _ _ => trivial
    | .mined false => exact .ret fun _ _ _ => trivial
    | .notSeen checked =>
      exact .bind hD ((hFill submitted.nonce s2).mono fun _ _ _ _ => .ret fun _ _ _ => trivial)

/-- A discipline that the views, the reads of the latest block and what is sent to the manager keep
to is kept by every task. -/
theorem starts_of_calls (hD : D.Sound (client config allow))
    (hViews : ∀ t id s, D.Keeps (client config allow) t (fun _ _ => True)
      (agreementOnChain config id) s)
    (hLatest : ∀ t s, D.Keeps (client config allow) t (fun _ _ => True)
      (latestBlockTimestamp config) s)
    (hManager : ∀ t call s, D.Keeps (client config allow) t (fun _ _ => True)
      (sendToManager config t call) s) : D.Starts (client config allow) := by
  intro s seed th _ hStart
  obtain ⟨task, call⟩ := seed
  obtain rfl := Option.some.inj hStart
  cases call with
  | agreementOnChain id =>
    exact .bind hD ((hViews task id s).mono fun _ _ _ _ => .ret fun _ _ _ => trivial)
  | latestBlockTimestamp =>
    exact .bind hD ((hLatest task s).mono fun _ _ _ _ => .ret fun _ _ _ => trivial)
  | _ => exact .bind hD ((hManager task _ s).mono fun _ _ _ _ => .ret fun _ _ _ => trivial)

end Calls

end AlloyClient

end Dipper
