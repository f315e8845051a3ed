import Dipper.Effects
import Dipper.System

/-! Which programs do what.  Only a reassessment registers agreements: of the programs of the other
services and jobs no operation is a registration, whatever results they get.  Only the liveness
check, the cancel retry and the listener's pages settle agreements that were abandoned. -/

namespace Dipper

open Concurrent

def Unregistering {α : Type} (p : Act α) : Prop := p.OnlyOps fun o => o.registers = false

namespace Unregistering

variable {α β : Type}

theorem ret (a : α) : Unregistering (pure a : Act α) := trivial

theorem op {o : Op} (h : o.registers = false) : Unregistering (call o) := ⟨h, fun _ => trivial⟩

theorem bind {p : Act α} {k : α → Act β} (hp : Unregistering p)
    (hk : ∀ a, Unregistering (k a)) : Unregistering (p >>= k) :=
  Prog.OnlyOps.bind hp hk

theorem forEach {body : α → Act Unit} (hBody : ∀ a, Unregistering (body a)) (xs : List α) :
    Unregistering (Prog.forEach xs body) :=
  Prog.OnlyOps.forEach hBody xs

end Unregistering

open Unregistering

section Minor

/-- The statements that settle an agreement that was abandoned, or note that its end was seen. -/
def RowUpdate.frees : RowUpdate → Bool
  | .markAsAbandonedByIndexer | .markReplacementQueued | .recordCancelCheck _ (some true) => true
  | _ => false

/-- The operations that register nothing, read no page of the subgraph, persist no cursor, apply no
reconciliation and settle no abandoned agreement. -/
def Op.minor : Op → Bool
  | .register .. | .getChanged .. | .updateListenerState .. | .applyReconciliation ..
  | .applyReconciliationBatch _ => false
  | .update _ u => !u.frees
  | _ => true

/-- A program of such operations. -/
def Minor {α : Type} (p : Act α) : Prop := p.OnlyOps fun o => o.minor = true

theorem Minor.unregistering {α : Type} {p : Act α} (hp : Minor p) : Unregistering p := by
  refine Prog.OnlyOps.mono (fun o ho => ?_) hp
  cases o <;> first | rfl | cases ho

theorem minor_listAgreements (q : AgreementQuery) : Minor (Registry.listAgreements q) := by
  refine .ask rfl fun r => ?_
  cases r <;> exact .pure _

theorem minor_getById (id : IndexingAgreementId) :
    Minor (Registry.getIndexingAgreementById id) := by
  refine .ask rfl fun r => ?_
  cases r <;> exact .pure _

end Minor

section Cancel

/-- The operations a cancel of the agreement is made of. -/
def Op.ofCancel (id : IndexingAgreementId) : Op → Prop
  | .now => True
  | .agreementOnChain id' | .cancelViaManager id' _ | .update id' _ => id' = id
  | _ => False

theorem Op.ofCancel.registers {id : IndexingAgreementId} {o : Op} (h : o.ofCancel id) :
    o.registers = false := by
  cases o <;> first | rfl | cases h

/-- A program that cancels one agreement and does nothing else. -/
def Cancels {α : Type} (agreement : IndexingAgreement) (p : Act α) : Prop :=
  p.OnlyOps (Op.ofCancel agreement.id)

namespace Cancels

variable {α β : Type} {agreement : IndexingAgreement}

theorem ret (a : α) : Cancels agreement (pure a : Act α) := trivial

theorem op {o : Op} (h : o.ofCancel agreement.id) : Cancels agreement (call o) :=
  ⟨h, fun _ => trivial⟩

theorem bind {p : Act α} {k : α → Act β} (hp : Cancels agreement p)
    (hk : ∀ a, Cancels agreement (k a)) : Cancels agreement (p >>= k) :=
  Prog.OnlyOps.bind hp hk

theorem unregistering {p : Act α} (hp : Cancels agreement p) : Unregistering p :=
  Prog.OnlyOps.mono (fun _ => Op.ofCancel.registers) hp

end Cancels

def LiveCancel.settled : LiveCancel → Bool
  | .notLive _ | .ended _ => true
  | _ => false

/-- The statements that carry a marked cancel through. -/
def RowUpdate.settles : RowUpdate → Bool
  | .markAsCanceledByRequester | .markAsAbandonedByIndexer | .recordCancelAudit ..
  | .recordCancelCheck .. => true
  | _ => false

/-- The operations of a cancel once its agreement is marked. -/
def Op.settles (id : IndexingAgreementId) : Op → Prop
  | .now => True
  | .agreementOnChain id' | .cancelViaManager id' _ => id' = id
  | .update id' u => id' = id ∧ u.settles = true
  | _ => False

theorem Op.settles.ofCancel {id : IndexingAgreementId} {o : Op} (h : o.settles id) :
    o.ofCancel id := by
  cases o with
  | update id' u => exact h.1
  | _ => exact h

/-- A program that carries through the cancel of an agreement that is marked. -/
def Settles {α : Type} (agreement : IndexingAgreement) (p : Act α) : Prop :=
  p.OnlyOps (Op.settles agreement.id)

theorem Settles.cancels {α : Type} {agreement : IndexingAgreement} {p : Act α}
    (hp : Settles agreement p) : Cancels agreement p :=
  Prog.OnlyOps.mono (fun _ => Op.settles.ofCancel) hp

/-- The statements that carry a cancel for a reason through. -/
def RowUpdate.settlesFor (reason : CancelReason) : RowUpdate → Bool
  | .markAsCanceledByRequester => reason = .notWanted
  | .markAsAbandonedByIndexer => reason = .abandoned
  | .recordCancelAudit .. => true
  | _ => false

/-- The operations of a cancel for a reason once its agreement is marked. -/
def Op.settlesFor (id : IndexingAgreementId) (reason : CancelReason) : Op → Prop
  | .now => True
  | .agreementOnChain id' | .cancelViaManager id' _ => id' = id
  | .update id' u => id' = id ∧ u.settlesFor reason = true
  | _ => False

theorem Op.settlesFor.settles {id : IndexingAgreementId} {reason : CancelReason} {o : Op}
    (h : o.settlesFor id reason) : o.settles id := by
  cases o with
  | update id' u =>
    refine ⟨h.1, ?_⟩
    cases u <;> first | rfl | exact nomatch h.2
  | _ => exact h

/-- A program that carries through the cancel for a reason of an agreement that is marked. -/
def SettlesFor {α : Type} (agreement : IndexingAgreement) (reason : CancelReason) (p : Act α) :
    Prop :=
  p.OnlyOps (Op.settlesFor agreement.id reason)

theorem SettlesFor.settles {α : Type} {agreement : IndexingAgreement} {reason : CancelReason}
    {p : Act α} (hp : SettlesFor agreement reason p) : Settles agreement p :=
  Prog.OnlyOps.mono (fun _ => Op.settlesFor.settles) hp

theorem SettlesFor.minor {α : Type} {agreement : IndexingAgreement} {p : Act α}
    (hp : SettlesFor agreement .notWanted p) : Minor p := by
  refine Prog.OnlyOps.mono (fun o ho => ?_) hp
  cases o with
  | update id' u => cases u <;> first | rfl | exact nomatch ho.2
  | _ => first | rfl | cases ho

variable {config : Config} {agreement : IndexingAgreement} {reason : CancelReason}

theorem settlesFor_cancelAgreementOnChain (reason : CancelReason) :
    SettlesFor agreement reason (cancelAgreementOnChain agreement) := by
  unfold cancelAgreementOnChain
  split
  · exact .pure _
  · refine .ask rfl fun r => ?_
    split
    · exact .pure _
    · refine .ask rfl fun r => ?_
      split <;> exact .pure _

theorem settlesFor_cancelIfLive (reason : CancelReason) :
    SettlesFor agreement reason (cancelIfLive agreement) := by
  refine .ask rfl fun r => ?_
  split
  · exact .pure _
  · exact settlesFor_cancelAgreementOnChain reason
  · exact .pure _

theorem cancels_markCancelling : Cancels agreement (markCancelling agreement reason) := by
  cases reason <;> exact .op rfl

theorem settlesFor_confirmCancelled {txHash : Option TxHash} :
    SettlesFor agreement reason (confirmCancelled config agreement reason txHash) := by
  have hRecord : SettlesFor agreement reason (recordCancel config agreement txHash) :=
    .ask trivial fun _ => .ask ⟨rfl, rfl⟩ fun _ => .pure _
  have hMark : SettlesFor agreement reason (markEnded agreement reason) := by
    cases reason <;> exact .perform ⟨rfl, rfl⟩
  unfold confirmCancelled
  split
  · refine .bind hRecord fun _ => .bind hMark fun r => ?_
    split <;> exact .pure _
  · refine .bind hMark fun r => ?_
    split <;> exact .pure _

theorem settlesFor_finishMarkedCancel {cancel : LiveCancel} :
    SettlesFor agreement reason (finishMarkedCancel config agreement reason cancel) := by
  cases cancel with
  | ended txHash =>
    simp only [finishMarkedCancel]
    split
    · exact .pure _
    · refine .bind settlesFor_confirmCancelled fun r => ?_
      split <;> exact .pure _
  | _ => exact .pure _

theorem settlesFor_sendMarkedCancel :
    SettlesFor agreement reason (sendMarkedCancel config agreement reason) :=
  .bind (settlesFor_cancelIfLive reason) fun _ => settlesFor_finishMarkedCancel

theorem cancels_startCancel : Cancels agreement (startCancel config agreement reason) := by
  refine .bind cancels_markCancelling fun r => ?_
  split
  · exact .ret _
  · exact .bind settlesFor_sendMarkedCancel.settles.cancels fun _ => .ret _

theorem cancels_startCancelSeenLive :
    Cancels agreement (startCancelSeenLive config agreement reason) := by
  refine .bind cancels_markCancelling fun r => ?_
  split
  · exact .ret _
  · exact .bind (settlesFor_cancelAgreementOnChain reason).settles.cancels fun _ =>
      .bind settlesFor_finishMarkedCancel.settles.cancels fun _ => .ret _

theorem minor_startCancel : Minor (startCancel config agreement .notWanted) := by
  refine .ask rfl fun r => ?_
  split
  · exact .pure _
  · exact .bind settlesFor_sendMarkedCancel.minor fun _ => .pure _

theorem minor_startCancelSeenLive : Minor (startCancelSeenLive config agreement .notWanted) := by
  refine .ask rfl fun r => ?_
  split
  · exact .pure _
  · exact .bind (settlesFor_cancelAgreementOnChain .notWanted).minor fun _ =>
      .bind settlesFor_finishMarkedCancel.minor fun _ => .pure _

theorem minor_reopenIfLive : Minor (reopenIfLive agreement) := by
  have hReopen : ∀ seenLive, Minor (reopen agreement seenLive) := by
    intro seenLive
    refine .ask rfl fun r => ?_
    split <;> exact .pure _
  refine .ask rfl fun r => ?_
  split
  · exact hReopen _
  · exact .pure _
  · split
    · exact .pure _
    · exact hReopen _

end Cancel

section Jobs

variable {config : Config} {id : IndexingAgreementId} {request : IndexingRequestId}

theorem minor_withdrawOfferIfStored {agreement : IndexingAgreement} :
    Minor (SubmitOffer.withdrawOfferIfStored agreement) := by
  refine .bind (settlesFor_cancelIfLive .notWanted).minor fun r => ?_
  split <;> exact .pure _

theorem minor_checkCancelled : Minor (SubmitOffer.checkCancelled id) := by
  have hMeanwhile : Minor (SubmitOffer.cancelledMeanwhile id) := by
    refine .bind (minor_getById id) fun r => ?_
    split <;> exact .pure _
  refine .bind hMeanwhile fun r => ?_
  split
  · exact minor_withdrawOfferIfStored
  · exact .pure _

theorem minor_submitOffer : Minor (SubmitOffer.handle id) := by
  have hStep : Minor (SubmitOffer.nextStep id) := by
    refine .bind (minor_getById id) fun r => ?_
    split
    · exact .pure _
    · exact .pure _
    · repeat' split
      all_goals exact .pure _
  have hSubmit : ∀ agreement, Minor (SubmitOffer.submitOffer agreement) := by
    intro agreement
    refine .ask rfl fun r => ?_
    split
    · exact minor_checkCancelled
    · exact .ask rfl fun _ => minor_checkCancelled
    all_goals exact .pure _
  refine .bind hStep fun r => ?_
  split
  · exact .pure _
  · exact hSubmit _
  · exact minor_withdrawOfferIfStored
  · exact .pure _

theorem minor_sendProposal : Minor (SendProposal.handle id request) := by
  have hReassess : Minor (SendProposal.queueReassessment request) := by
    refine .ask rfl fun r => ?_
    split
    · exact .pure _
    · refine .ask rfl fun r => ?_
      split <;> exact .pure _
  have hMark : ∀ mark : RowUpdate, mark.frees = false →
      Minor (SendProposal.markAndReassess id request mark) := by
    intro mark hFrees
    refine .ask (by simp [Op.minor, hFrees]) fun r => ?_
    split
    · exact .pure _
    · refine .ask rfl fun r => ?_
      split
      · exact .pure _
      · exact hReassess
  refine .bind (minor_getById id) fun r => ?_
  split
  · exact .pure _
  · exact .pure _
  · split
    · exact .pure _
    · refine .ask rfl fun r => ?_
      split
      · refine .ask rfl fun r => ?_
        split <;> exact .pure _
      all_goals exact hMark _ rfl

theorem minor_cancelRejected {accept : Option ChainAccept} :
    Minor (CancelRejected.handle id accept) := by
  have hRecord : Minor (CancelRejected.recordAccept id accept) := by
    cases accept with
    | none => exact .pure _
    | some accept =>
      refine .ask rfl fun r => ?_
      split <;> exact .pure _
  have hReopen : ∀ agreement, Minor (CancelRejected.reopen agreement) := by
    intro agreement
    refine .bind minor_reopenIfLive fun r => ?_
    split <;> exact .pure _
  refine .bind (minor_getById id) fun r => ?_
  split
  · exact .pure _
  · exact .pure _
  · split
    · refine .bind (hReopen _) fun r => ?_
      split
      · exact .pure _
      · exact hRecord
      · exact .pure _
    · refine .bind (hReopen _) fun r => ?_
      split
      · exact .pure _
      · exact hRecord
      · exact .pure _
    · exact hRecord
    · exact .pure _

end Jobs

section Retry

variable {config : Config} {row : CancellingAgreement} {chainNow : Option Nat}

/-- The operations of a retry of the cancels of some agreements. -/
def Op.retries (ids : List IndexingAgreementId) : Op → Prop
  | .now | .latestBlockTimestamp => True
  | .agreementOnChain id | .cancelViaManager id _ => id ∈ ids
  | .update id u => id ∈ ids ∧ u.settles = true
  | .applyReconciliation id applyAccept cancel =>
    id ∈ ids ∧ applyAccept = false ∧ cancel = some .byIndexer
  | _ => False

theorem Op.retries.registers {ids : List IndexingAgreementId} {o : Op} (h : o.retries ids) :
    o.registers = false := by
  cases o <;> first | rfl | cases h

theorem Op.retries.mono {ids ids' : List IndexingAgreementId} (hIds : ids ⊆ ids') {o : Op}
    (h : o.retries ids) : o.retries ids' := by
  cases o with
  | agreementOnChain id | cancelViaManager id versionHash => exact hIds h
  | update id u => exact ⟨hIds h.1, h.2⟩
  | applyReconciliation id applyAccept cancel => exact ⟨hIds h.1, h.2⟩
  | _ => exact h

theorem Op.settles.retries {id : IndexingAgreementId} {o : Op} (h : o.settles id) :
    o.retries [id] := by
  cases o with
  | now => trivial
  | agreementOnChain id' | cancelViaManager id' versionHash => exact List.mem_singleton.mpr h
  | update id' u => exact ⟨List.mem_singleton.mpr h.1, h.2⟩
  | _ => cases h

/-- A program that retries the cancels of some agreements. -/
def Retries {α : Type} (ids : List IndexingAgreementId) (p : Act α) : Prop :=
  p.OnlyOps (Op.retries ids)

theorem Settles.retries {α : Type} {agreement : IndexingAgreement} {p : Act α}
    (hp : Settles agreement p) : Retries [agreement.id] p :=
  Prog.OnlyOps.mono (fun _ => Op.settles.retries) hp

theorem retries_confirmIfOver {txHash : Option TxHash} {byIndexer : Bool} :
    Retries [row.agreement.id] (confirmIfOver config row txHash byIndexer chainNow) := by
  have hSelf : row.agreement.id ∈ [row.agreement.id] := List.mem_singleton.mpr rfl
  have hRecord : Retries [row.agreement.id] (recordEndByIndexer row.agreement) := by
    refine .ask trivial fun _ => .ask ⟨hSelf, rfl⟩ fun r => ?_
    split
    · exact .pure _
    · refine .ask ⟨hSelf, rfl, rfl⟩ fun r => ?_
      split <;> exact .pure _
  refine .ask trivial fun now => ?_
  dsimp only
  split
  · exact .pure _
  · split
    · split
      · exact .pure _
      · exact hRecord
    · exact settlesFor_confirmCancelled.settles.retries

theorem retries_noteCheck {failure : Option ChainClientError} {ended : Option Bool} :
    Retries [row.agreement.id] (noteCheck row failure ended) :=
  .ask ⟨List.mem_singleton.mpr rfl, rfl⟩ fun _ => .pure _

theorem retries_settleCancel {txHash : Option TxHash} {byIndexer : Bool} :
    Retries [row.agreement.id] (settleCancel config row txHash byIndexer chainNow) := by
  refine .bind retries_confirmIfOver fun r => ?_
  split
  · exact .pure _
  · exact .bind retries_noteCheck fun _ => .pure _

theorem retries_retryCancel : Retries [row.agreement.id] (retryCancel config row chainNow) := by
  refine .bind (settlesFor_cancelIfLive .notWanted).settles.retries fun r => ?_
  split
  · exact .bind retries_noteCheck fun _ => .pure _
  · exact .bind retries_noteCheck fun _ => .pure _
  · exact .bind retries_noteCheck fun _ => .pure _
  · exact retries_settleCancel
  · exact retries_settleCancel

theorem retries_retryEach {started : Nat} (rows : List CancellingAgreement) :
    Retries (rows.map (·.agreement.id)) (retryEach config chainNow started rows) := by
  induction rows with
  | nil => exact .pure _
  | cons row rest ih =>
    have hHead : [row.agreement.id] ⊆ (row :: rest).map (·.agreement.id) :=
      List.cons_subset_cons _ (List.nil_subset _)
    have hTail : rest.map (·.agreement.id) ⊆ (row :: rest).map (·.agreement.id) :=
      List.subset_cons_self _ _
    refine .ask trivial fun now => ?_
    split
    · exact .pure _
    · exact .bind (retries_retryCancel.mono fun _ => .mono hHead) fun _ =>
        .bind (ih.mono fun _ => .mono hTail) fun _ => .pure _

theorem retries_sweep (rows : List CancellingAgreement) :
    Retries (rows.map (·.agreement.id)) (do
      let chainNow ← readChainNow rows
      let started ← nowSecs
      return some (← retryEach config chainNow started rows)) := by
  have hTime : Retries (rows.map (·.agreement.id)) (readChainNow rows) := by
    unfold readChainNow
    split
    · refine .ask trivial fun r => ?_
      split <;> exact .pure _
    · exact .pure _
  exact .bind hTime fun _ => .ask trivial fun _ =>
    .bind (retries_retryEach rows) fun _ => .pure _

theorem minor_queueReplacement {agreement : IndexingAgreement} :
    Minor (Liveness.queueReplacement agreement) := by
  refine .ask rfl fun r => ?_
  split
  · exact .pure _
  · exact .pure _
  · split
    · exact .pure _
    · refine .ask rfl fun r => ?_
      split <;> exact .pure _

theorem unregistering_replaceAbandoned {agreement : IndexingAgreement} :
    Unregistering (Liveness.replaceAbandoned agreement) := by
  refine bind minor_queueReplacement.unregistering fun r => ?_
  split
  · exact bind (op rfl) fun _ => ret _
  · exact ret _

theorem unregistering_cancelRetryCycle : Unregistering (cancelRetryCycle config) := by
  have hRetry : Unregistering (retryCancellingAgreements config) := by
    refine bind (op rfl) fun r => ?_
    split
    · exact ret _
    · dsimp only
      split
      · exact ret _
      · exact Prog.OnlyOps.mono (fun _ => Op.retries.registers) (retries_sweep _)
  refine bind hRetry fun _ => bind (minor_listAgreements _).unregistering fun r => ?_
  split
  · exact ret _
  · exact forEach (fun _ => unregistering_replaceAbandoned) _

end Retry

section Services

variable {config : Config} {agreement : IndexingAgreement}

theorem minor_expireEach (agreements : List IndexingAgreement) :
    Minor (Expiration.expireEach agreements) := by
  have hExpire : ∀ agreement, Minor (Expiration.expire agreement) := by
    intro agreement
    refine .ask rfl fun r => ?_
    split
    · exact .pure _
    · refine .ask rfl fun _ => .bind (.perform rfl) fun r => ?_
      split
      · exact .ask rfl fun _ => .pure _
      · exact .pure _
  induction agreements with
  | nil => exact .pure _
  | cons agreement rest ih =>
    refine .ask rfl fun stopped => ?_
    split
    · exact .pure _
    · exact .bind (hExpire agreement) fun _ => ih

theorem minor_scan : Minor (Expiration.scan config) := by
  refine .bind (.perform rfl) fun r => ?_
  split
  · refine .bind (minor_listAgreements _) fun r => ?_
    split
    · exact .pure _
    · exact minor_expireEach _
  · exact .pure _

theorem unregistering_cancelAndReassess :
    Unregistering (Liveness.cancelAndReassess config agreement) := by
  have hSeen : Unregistering (Liveness.noteSeenEnded agreement) := by
    refine bind (op rfl) fun r => ?_
    split <;> exact ret _
  unfold Liveness.cancelAndReassess
  split
  · exact ret _
  · refine bind cancels_markCancelling.unregistering fun r => ?_
    split
    · exact ret _
    · refine bind settlesFor_sendMarkedCancel.settles.cancels.unregistering fun started =>
        bind (op rfl) fun _ => ?_
      split
      · exact unregistering_replaceAbandoned
      · exact ret _
      · refine bind hSeen fun r => ?_
        split
        · exact unregistering_replaceAbandoned
        · exact ret _

theorem unregistering_check : Unregistering (Liveness.check config) := by
  have hEach : ∀ agreements, Unregistering (Liveness.checkEach config agreements) := by
    intro agreements
    induction agreements with
    | nil => exact ret _
    | cons agreement rest ih =>
      refine bind (op rfl) fun stale => ?_
      split
      · exact bind unregistering_cancelAndReassess fun _ => ih
      · exact ih
  refine bind (minor_listAgreements _).unregistering fun r => ?_
  split
  · exact ret _
  · exact hEach _

end Services

section Listener

variable {config : Config} {snapshot : AgreementStateSnapshot}

/-- The operations of the reconciliation of a page: it reads no further page, persists no cursor
and registers nothing. -/
def Op.ofReconciling : Op → Bool
  | .getChanged .. | .updateListenerState .. | .register .. => false
  | _ => true

/-- A program of such operations. -/
def Reconciling {α : Type} (p : Act α) : Prop := p.OnlyOps fun o => o.ofReconciling = true

theorem Reconciling.unregistering {α : Type} {p : Act α} (hp : Reconciling p) :
    Unregistering p := by
  refine Prog.OnlyOps.mono (fun o ho => ?_) hp
  cases o <;> first | rfl | cases ho

theorem Minor.reconciling {α : Type} {p : Act α} (hp : Minor p) : Reconciling p := by
  refine Prog.OnlyOps.mono (fun o ho => ?_) hp
  cases o <;> first | rfl | cases ho

theorem minor_prepareReconciliation {agreement : Option IndexingAgreement}
    {queued : List (IndexingAgreementId × Nat)} :
    Minor (Listener.prepareReconciliation snapshot agreement queued) := by
  have hQueue : Minor (Listener.queueLiveCheck snapshot queued) := by
    unfold Listener.queueLiveCheck
    dsimp only
    split
    · exact .pure _
    · refine .ask rfl fun r => ?_
      split <;> exact .pure _
  have hCheck : ∀ agreement,
      Minor (Listener.checkEndedButAccepted snapshot agreement queued) := by
    intro agreement
    unfold Listener.checkEndedButAccepted
    split
    · exact hQueue
    · exact .pure _
  have hRecord : ∀ agreement,
      Minor (Listener.recordAcceptOfCancelling snapshot agreement) := by
    intro agreement
    unfold Listener.recordAcceptOfCancelling
    split
    · exact .pure _
    · refine .ask rfl fun r => ?_
      split <;> exact .pure _
  have hEnd : ∀ agreement,
      Minor (Listener.recordAcceptAndCancelFromChain snapshot agreement) := by
    intro agreement
    unfold Listener.recordAcceptAndCancelFromChain
    split
    · exact .pure _
    · refine .ask rfl fun r => ?_
      split <;> exact .pure _
  have hDecide : ∀ agreement,
      Minor (Listener.decideReconciliation snapshot agreement) := by
    intro agreement
    unfold Listener.decideReconciliation
    split
    · exact .pure _
    · split
      · refine .bind (hEnd agreement) fun r => ?_
        split <;> exact .pure _
      · exact .pure _
  cases agreement with
  | none => exact .pure _
  | some agreement =>
    refine .bind (hCheck agreement) fun r => ?_
    split
    · exact .pure _
    · refine .bind (hRecord agreement) fun r => ?_
      split
      · exact .pure _
      · exact .bind (hDecide agreement) fun _ => .pure _

theorem minor_executePendingCancellations {new : IndexingAgreementId} :
    Minor (Listener.executePendingCancellations config new) := by
  have hStart : ∀ old, Minor (Listener.startReplacedCancel config old) := by
    intro old
    refine .bind (minor_getById old) fun r => ?_
    split
    · exact .pure _
    · exact .pure _
    · split
      · refine .ask rfl fun r => ?_
        split
        · exact .pure _
        · exact .bind minor_startCancelSeenLive fun _ => .pure _
        · exact .pure _
      · exact .bind minor_startCancel fun _ => .pure _
  have hEach : ∀ olds, Minor (Listener.cancelReplaced config new olds) := by
    intro olds
    induction olds with
    | nil => exact .pure _
    | cons old rest ih =>
      refine .bind (hStart old) fun r => ?_
      split
      · exact .pure _
      · refine .ask rfl fun r => ?_
        split
        · exact .pure _
        · exact ih
      · refine .bind ih fun r => ?_
        split <;> exact .pure _
  refine .ask rfl fun r => ?_
  split
  · exact .pure _
  · refine .bind (hEach _) fun r => ?_
    split <;> exact .pure _

theorem minor_preparePage {snapshots : List AgreementStateSnapshot}
    {liveChecks : List (IndexingAgreementId × Nat)} :
    Minor (Listener.preparePage snapshots liveChecks) := by
  have hEach : ∀ snapshots agreements work,
      Minor (Listener.prepareEach snapshots agreements work) := by
    intro snapshots
    induction snapshots with
    | nil => exact fun _ _ => .pure _
    | cons snapshot rest ih =>
      intro agreements work
      refine .ask rfl fun stopped => ?_
      split
      · exact .pure _
      · exact .bind minor_prepareReconciliation fun _ => ih _ _
  refine .bind (minor_listAgreements _) fun r => ?_
  split <;> exact hEach _ _ _

theorem minor_finalizeEach {outcomes : Outcomes}
    (preps : List Listener.PreparedReconciliation) :
    Minor (Listener.finalizeEach config outcomes preps) := by
  induction preps with
  | nil => exact .pure _
  | cons prep rest ih =>
    have hOne : ∀ outcome, Minor (Listener.finalizeReconciliation config prep outcome) := by
      intro outcome
      unfold Listener.finalizeReconciliation
      split
      · exact minor_executePendingCancellations
      · exact .pure _
    unfold Listener.finalizeEach
    split
    · exact ih
    · refine .bind (hOne _) fun r => ?_
      split <;> exact .bind ih fun _ => .pure _

theorem reconciling_reconcilePage {since : Cursor} {snapshots : List AgreementStateSnapshot}
    {liveChecks : List (IndexingAgreementId × Nat)} :
    Reconciling (Listener.reconcilePage config since snapshots liveChecks) := by
  have hApply : ∀ work, Reconciling (Listener.applyPage work) := by
    intro work
    unfold Listener.applyPage
    dsimp only
    split
    · exact .pure _
    · refine .ask rfl fun r => ?_
      split <;> exact .pure _
  refine .bind minor_preparePage.reconciling fun r => ?_
  dsimp only
  split
  · exact .pure _
  · exact .bind (hApply _) fun _ => .ask rfl fun _ =>
      .bind (minor_finalizeEach _).reconciling fun _ => .pure _

def Op.commits : Op → Bool
  | .updateListenerState .. => true
  | o => o.minor

theorem minor_ratchetTimestamp {newTs cachedTs : Option Nat} :
    Minor (Listener.ratchetTimestamp config newTs cachedTs) := by
  unfold Listener.ratchetTimestamp
  split
  · exact .pure _
  · split
    · exact .pure _
    · exact .ask rfl fun _ => .pure _

theorem minor_raiseHoldAlert {cursor : Cursor} {unapplied : List IndexingAgreementId}
    {skip held : Bool} : Minor (Listener.raiseHoldAlert cursor unapplied skip held) := by
  unfold Listener.raiseHoldAlert
  split
  · exact .perform rfl
  · split
    · exact .perform rfl
    · exact .pure _

theorem commits_commitPage {memory : ListenerMemory} {unapplied : List IndexingAgreementId}
    {cursor : Cursor} {newTs : Option Nat} :
    (Listener.commitPage config memory unapplied cursor newTs).OnlyOps
      fun o => o.commits = true := by
  have hMinor : ∀ {α : Type} {p : Act α}, Minor p → p.OnlyOps fun o => o.commits = true := by
    intro α p hp
    refine Prog.OnlyOps.mono (fun o ho => ?_) hp
    cases o <;> first | exact ho | cases ho
  have hPersist : ∀ changed cursor ratchet persisted,
      (Listener.persistState changed cursor ratchet persisted).OnlyOps
        fun o => o.commits = true := by
    intro changed cursor ratchet persisted
    unfold Listener.persistState
    split
    · refine .ask rfl fun r => ?_
      split <;> exact .pure _
    · exact .pure _
  exact .ask rfl fun _ => .bind (hMinor minor_ratchetTimestamp) fun _ =>
    .bind (hMinor minor_raiseHoldAlert) fun _ => .bind (hPersist _ _ _ _) fun _ => .pure _

theorem unregistering_commitPage {memory : ListenerMemory}
    {unapplied : List IndexingAgreementId} {cursor : Cursor} {newTs : Option Nat} :
    Unregistering (Listener.commitPage config memory unapplied cursor newTs) := by
  refine Prog.OnlyOps.mono (fun o ho => ?_) commits_commitPage
  cases o <;> first | rfl | cases ho

theorem minor_checkSkew {ts : Option Nat} : Minor (Listener.checkSkew config ts) := by
  cases ts with
  | none => exact .pure _
  | some ts => exact .ask rfl fun _ => .pure _

theorem unregistering_getChangedAgreements {since : Cursor} {pinned : Option Nat} :
    Unregistering (Listener.getChangedAgreements config since pinned) := by
  refine bind (op rfl) fun r => ?_
  split
  · exact ret _
  · split
    · exact ret _
    · refine bind minor_checkSkew.unregistering fun r => ?_
      split <;> exact ret _

theorem unregistering_drainPages (remaining : Nat) (since : Cursor) (pinned : Option Nat)
    (memory : ListenerMemory) (outcome : Listener.DrainOutcome) :
    Unregistering (Listener.drainPages config remaining since pinned memory outcome) := by
  induction remaining generalizing since pinned memory outcome with
  | zero => exact ret _
  | succ remaining ih =>
    refine bind unregistering_getChangedAgreements fun r => ?_
    split
    · exact ret _
    · refine bind reconciling_reconcilePage.unregistering fun report => ?_
      dsimp only
      split
      · exact ret _
      · refine bind unregistering_commitPage fun r => ?_
        split
        · exact ret _
        · exact ih _ _ _ _

theorem minor_sweepEvents {pending : AgreementQuery}
    {event : IndexingAgreementId → AgreementRow → Act Event} {stamp : RowUpdate}
    (hEvent : ∀ id row, Minor (event id row)) (hStamp : stamp.frees = false) :
    Minor (Listener.sweepEvents pending event stamp) := by
  have hEach : ∀ rows, Minor (Listener.emitEach event stamp rows) := by
    intro rows
    induction rows with
    | nil => exact .pure _
    | cons row rest ih =>
      refine .bind (hEvent _ _) fun _ => .ask rfl fun r => ?_
      split
      · exact .pure _
      · exact .ask (by simp [Op.minor, hStamp]) fun _ => ih
  refine .ask rfl fun r => ?_
  split
  · exact .pure _
  · exact .pure _
  · exact hEach _

theorem minor_runEventSweeps : Minor (Listener.runEventSweeps config) := by
  have hRemaining : ∀ deployment,
      Minor (Listener.remainingAcceptedIndexingAgreements deployment) := by
    intro deployment
    refine .ask rfl fun r => ?_
    split <;> exact .pure _
  refine .bind (minor_sweepEvents (fun _ _ => .pure _) rfl) fun accepted => ?_
  split
  · exact .pure _
  · refine .bind (minor_sweepEvents (fun _ _ => .bind (hRemaining _) fun _ => .pure _) rfl)
      fun terminated => ?_
    dsimp only
    split
    · exact .pure _
    · exact .bind (minor_sweepEvents (fun _ _ => .pure _) rfl) fun _ => .pure _

theorem minor_sweepCancellations {memory : ListenerMemory} :
    Minor (Listener.sweepCancellations config memory) := by
  have hExecutable : Minor (Listener.sweepExecutablePendingCancellations config) := by
    refine .ask rfl fun r => ?_
    split
    · exact .pure _
    · exact .forEach (fun _ => .bind minor_executePendingCancellations fun _ => .pure _) _
  have hOrphans : Minor (Listener.sweepOrphanCanceledAgreements config) := by
    refine .bind (minor_listAgreements _) fun r => ?_
    split
    · exact .pure _
    · exact .forEach (fun _ => .bind minor_startCancel fun _ => .pure _) _
  unfold Listener.sweepCancellations
  dsimp only
  split
  · exact .pure _
  · exact .bind hExecutable fun _ => .bind hOrphans fun _ => .pure _

theorem minor_announce {memory : ListenerMemory} : Minor (Listener.announce config memory) := by
  refine .ask rfl fun now => ?_
  split
  · exact .pure _
  · exact .bind minor_runEventSweeps fun _ => .pure _

theorem unregistering_poll {memory : ListenerMemory} :
    Unregistering (Listener.poll config memory) := by
  refine bind (unregistering_drainPages _ _ _ _ _) fun r => ?_
  dsimp only
  split
  · exact op rfl
  · split
    · exact bind (op rfl) fun _ => ret _
    · exact bind minor_announce.unregistering fun _ =>
        bind minor_sweepCancellations.unregistering fun _ => op rfl

end Listener

section Pass

open Reassess

variable {config : Config} {request : IndexingRequestId}

/-- The minor operations that write no agreement. -/
def Op.asks : Op → Bool
  | .update .. => false
  | o => o.minor

/-- A program of such operations. -/
def Asks {α : Type} (p : Act α) : Prop := p.OnlyOps fun o => o.asks = true

theorem Asks.minor {α : Type} {p : Act α} (hp : Asks p) : Minor p := by
  refine Prog.OnlyOps.mono (fun o ho => ?_) hp
  cases o <;> first | exact ho | cases ho

theorem asks_listAgreements (q : AgreementQuery) : Asks (Registry.listAgreements q) := by
  refine .ask rfl fun r => ?_
  cases r <;> exact .pure _

theorem asks_readBaseline : Asks (readBaseline request) := by
  refine .ask rfl fun r => ?_
  match r with
  | .error _ | .ok none => exact .pure _
  | .ok (some stored) =>
    refine .bind (asks_listAgreements _) fun r => ?_
    split
    · exact .pure _
    · refine .bind (asks_listAgreements _) fun r => ?_
      split
      · exact .pure _
      · refine .bind (asks_listAgreements _) fun r => ?_
        split <;> exact .pure _

theorem asks_selectTarget {n : Nat} : Asks (selectTarget request n) := by
  refine .ask rfl fun r => ?_
  split
  · exact .pure _
  · refine .ask rfl fun r => ?_
    split <;> exact .pure _

theorem asks_signalShortfall {b : Baseline} {n : Nat} : Asks (signalShortfall request b n) := by
  refine .ask rfl fun r => ?_
  match r with
  | .ok true =>
    dsimp only
    split
    · exact .ask rfl fun _ => .pure _
    · exact .pure _
  | .ok false | .error _ => exact .pure _

theorem asks_resolveDeadlineClock : Asks (resolveDeadlineClock config) := by
  have hNow : Asks (nowSecs >>= fun now => pure (.ok now) : Act (Except JobError Nat)) :=
    .ask rfl fun _ => .pure _
  unfold resolveDeadlineClock
  split
  · exact hNow
  · refine .ask rfl fun r => ?_
    split
    · exact .pure _
    · split
      · exact hNow
      · refine .ask rfl fun r => ?_
        split
        · exact .pure _
        · exact hNow
        · exact .pure _

theorem asks_announceProposed {b : Baseline} {now : Nat} {proposed : List IndexerId} :
    Asks (announceProposed config b now proposed) := by
  unfold announceProposed
  split
  · exact .pure _
  · exact .ask rfl fun _ => .pure _

theorem minor_cancelUnpaired {agreement : IndexingAgreement} :
    Minor (cancelUnpaired config agreement) := by
  unfold cancelUnpaired
  dsimp only
  split
  · exact .ask rfl fun _ => .pure _
  · exact .bind minor_startCancel fun _ => .pure _

end Pass

theorem unregistering_thread {config : Config} {w : World} {seed : Seed}
    {th : Thread Tag Op Res Unit} (hStart : seed.thread config w = some th)
    (hTag : th.tag ≠ .reassess) : Unregistering th.prog := by
  cases seed with
  | poll =>
    cases hStart
    exact unregistering_poll
  | job job =>
    simp only [Seed.thread, Option.ite_none_right_eq_some, Option.some.injEq] at hStart
    obtain ⟨-, rfl⟩ := hStart
    cases job with
    | sendIndexingAgreementProposal id request =>
      exact bind minor_sendProposal.unregistering fun _ => ret _
    | submitOffer id request => exact bind minor_submitOffer.unregistering fun _ => ret _
    | reassessIndexingRequest request => exact absurd rfl hTag
    | cancelRejectedAgreementOnChain id accept =>
      exact bind minor_cancelRejected.unregistering fun _ => ret _
  | expirationScan =>
    cases hStart
    exact minor_scan.unregistering
  | livenessCheck =>
    cases hStart
    exact unregistering_check
  | cancelRetry =>
    cases hStart
    exact unregistering_cancelRetryCycle

end Dipper
