import Dipper.Consistency.Cancel
import Dipper.Registering

/-! The handshake between offers and cancels.  An offer job writes the chain and then reads the
row; a cancel marks the row and then reads the chain.  Whichever comes second sees the other, so
an offer that stays on the chain has a run that is still to withdraw it. -/

namespace Dipper

open Concurrent

inductive Attempt : Type
  | offer (id : IndexingAgreementId)
  | cancel (agreement : IndexingAgreement) (reason : CancelReason)
  | retry
  deriving DecidableEq, Repr

inductive Finished : Type
  | offer (r : Except JobError Unit)
  | cancel (r : Except RegistryError CancelStarted)
  | retry (logs : Option (List RetryLog))

def Attempt.prog (config : Config) : Attempt → Act Finished
  | .offer id => do return .offer (← SubmitOffer.handle id)
  | .cancel agreement reason => do return .cancel (← startCancel config agreement reason)
  | .retry => do return .retry (← retryCancellingAgreements config)

/-- Whether a run finished without an error.  A cancel that is left to the retry met one, and one
that found nothing to mark did not. -/
def Finished.ok : Finished → Bool
  | .offer (.ok _) => true
  | .offer (.error _) => false
  | .cancel (.ok started) => started ≠ .mayBeLive
  | .cancel (.error err) => err = .noRecordsUpdated
  | .retry none => false
  | .retry (some logs) => logs.all fun log => log = .confirmed || log = .stillCancelling

/-- A transaction has its effect exactly if it comes back `Ok`, and the registry's reads succeed. -/
def AtomicCalls : Op → Choice → Prop
  | .offerViaManager .., .mined _ effective | .cancelViaManager .., .mined _ effective =>
    effective = true
  | .offerViaManager .., .chainError _ effective
  | .cancelViaManager .., .chainError _ effective => effective = false
  | .select _, .fail => False
  | _, _ => True

instance (o : Op) (c : Choice) : Decidable (AtomicCalls o c) := by
  induction o using Op.casesOn with
  | offerViaManager id deadline =>
    induction c using Choice.casesOn with
    | mined tx effective => exact inferInstanceAs (Decidable (effective = true))
    | chainError e effective => exact inferInstanceAs (Decidable (effective = false))
    | _ => exact isTrue trivial
  | cancelViaManager id versionHash =>
    induction c using Choice.casesOn with
    | mined tx effective => exact inferInstanceAs (Decidable (effective = true))
    | chainError e effective => exact inferInstanceAs (Decidable (effective = false))
    | _ => exact isTrue trivial
  | select q =>
    induction c using Choice.casesOn with
    | fail => exact isFalse not_false
    | _ => exact isTrue trivial
  | _ => exact isTrue trivial

/-- Any number of offers, cancels and sweeps over one world, each run to its end. -/
def handshake (config : Config) :
    System World Unit Op Res Finished Choice Attempt Outside where
  exec := World.exec
  start _ attempt := some ⟨(), attempt.prog config⟩
  env := Outside.move config
  allow _ _ := AtomicCalls
  exclusive _ := false
  drops := false

namespace World

/-- Dipper has cancelled the agreement, or started to. -/
def Cancelled (w : World) (id : IndexingAgreementId) : Prop :=
  ∃ row, w.row id = some row ∧ SubmitOffer.dipperCancelled row.status = true

/-- The agreement is cancelled while the indexer can accept its offer. -/
def Exposed (w : World) (id : IndexingAgreementId) : Prop :=
  w.Cancelled id ∧ (w.chain id).Acceptable w.chainTime

variable {w w' : World} {id : IndexingAgreementId}

theorem Ending.of_grown (h : w.Ending id) (hGrown : w.agreements.Grown w'.agreements) :
    w'.Ending id := by
  obtain ⟨row, hRow, hEnding⟩ := h
  obtain ⟨row', hRow', hGrows⟩ := hGrown.grows hRow
  exact ⟨row', hRow', hGrows.status.ending hEnding⟩

theorem exposed_of_outside {config : Config} {e : Outside} (h : e.move config w = some w')
    (hExposed : w'.Exposed id) : w.Exposed id := by
  obtain ⟨⟨row, hRow, hStatus⟩, hOffer⟩ := hExposed
  refine ⟨⟨row, ((untouched_of_outside h).sameRow id).symm.trans hRow, hStatus⟩, ?_⟩
  have hTime := chainTime_of_outside h
  cases hChain : w'.chain id with
  | offered deadline =>
    rw [hChain] at hOffer
    rcases chain_of_outside h id with hSame | hAccept | ⟨by', hFinish⟩
    · rw [← hSame, hChain]
      exact hTime.trans hOffer
    · rw [hChain] at hAccept
      cases hBefore : w.chain id <;>
        simp [hBefore, OnChain.accept] at hAccept
    · rw [hChain] at hFinish
      cases hBefore : w.chain id <;> simp [hBefore, OnChain.finish] at hFinish
  | _ =>
    rw [hChain] at hOffer
    exact hOffer.elim

theorem not_acceptable_cancel {c : OnChain} {time time' : Nat} :
    ¬ (c.cancel time).Acceptable time' := by
  cases c <;> exact id

theorem Effect.acceptable {o : Op} (h : Effect w w' o)
    (hOffer : ∀ deadline, o ≠ .offerViaManager id deadline)
    (hAcceptable : (w'.chain id).Acceptable w'.chainTime) :
    (w.chain id).Acceptable w.chainTime := by
  have hChanges := h.changes
  rw [hChanges.chainTime] at hAcceptable
  rcases hChanges.chain id with hSame | ⟨deadline, hOp, -⟩ | ⟨hash, -, hCancel⟩
  · rwa [hSame] at hAcceptable
  · exact absurd hOp (hOffer deadline)
  · rw [hCancel] at hAcceptable
    exact absurd hAcceptable not_acceptable_cancel

theorem cancelled_of_effect {o : Op} (h : Effect w w' o) (hOp : o.registers = false)
    (hDistinct : Distinct o)
    (hRows : ∀ row row', w.row id = some row → RowEffect w id o (some row) (some row') →
      SubmitOffer.dipperCancelled row'.status = true →
        SubmitOffer.dipperCancelled row.status = true)
    (hCancelled : w'.Cancelled id) : w.Cancelled id := by
  obtain ⟨row', hRow', hStatus⟩ := hCancelled
  obtain ⟨row, hBefore, -⟩ := (h.grown hOp).origin hRow'
  have hRow : w.row id = some row := hBefore
  have hEffect := h.row hDistinct id
  rw [hRow, hRow'] at hEffect
  exact ⟨row, hRow, hRows row row' hRow hEffect hStatus⟩

theorem cancelled_of_update {a : IndexingAgreementId} {u : RowUpdate}
    (h : Effect w w' (.update a u)) (hSets : u.sets = none) (hCancelled : w'.Cancelled id) :
    w.Cancelled id := by
  refine cancelled_of_effect h rfl trivial (fun row row' _ hEffect hStatus => ?_) hCancelled
  cases hEffect with
  | same => exact hStatus
  | update hRun =>
    rcases RowUpdate.status_eq hRun with hSame | hNew
    · rwa [hSame] at hStatus
    · rw [hSets] at hNew
      cases hNew

theorem cancelled_of_settles {now : Nat} {u : RowUpdate} {row row' : AgreementRow}
    (hSettles : u.settles = true) (hEnding : row.status.ending = true)
    (hRun : u.run now row = some row') (h : SubmitOffer.dipperCancelled row'.status = true) :
    SubmitOffer.dipperCancelled row.status = true := by
  rcases RowUpdate.status_eq hRun with hSame | hSets
  · rwa [hSame] at h
  · cases u with
    | markAsCanceledByRequester =>
      obtain ⟨hFrom, -⟩ := setStatusFrom_eq_some.mp hRun
      revert hFrom hEnding
      cases row.status <;> decide
    | markAsAbandonedByIndexer =>
      rw [← Option.some.inj hSets] at h
      cases h
    | recordCancelAudit canceledAt canceledBy canceledTx => cases hSets
    | recordCancelCheck attempts ended => cases hSets
    | _ => cases hSettles

theorem cancelled_of_retries {ids : List IndexingAgreementId} {o : Op} (h : Effect w w' o)
    (hRetries : o.retries ids) (hEnding : ∀ a ∈ ids, w.Ending a) (hCancelled : w'.Cancelled id) :
    w.Cancelled id := by
  have hDistinct : Distinct o := by
    cases o with
    | applyReconciliationBatch items => cases hRetries
    | _ => trivial
  refine cancelled_of_effect h hRetries.registers hDistinct ?_ hCancelled
  intro row row' hRow hEffect hStatus
  cases hEffect with
  | same => exact hStatus
  | update hRun =>
    obtain ⟨hId, hSettles⟩ := hRetries
    obtain ⟨row1, hRow1, hEnding1⟩ := hEnding id hId
    obtain rfl := Option.some.inj (hRow1.symm.trans hRow)
    exact cancelled_of_settles hSettles hEnding1 hRun hStatus
  | reconcile =>
    obtain ⟨-, rfl, rfl⟩ := hRetries
    rcases Agreements.transition_cases w.now false (some .byIndexer) row with hSame |
      ⟨hAccept, -⟩ | ⟨kind, hKind, -, hMoved⟩ | ⟨kind, -, hAccept, -⟩
    · rwa [hSame] at hStatus
    · cases hAccept
    · obtain rfl := Option.some.inj hKind
      rw [hMoved] at hStatus
      cases hStatus
    · cases hAccept
  | batch => cases hRetries

theorem exposed_of_retries {ids : List IndexingAgreementId} {o : Op} (h : Effect w w' o)
    (hRetries : o.retries ids) (hEnding : ∀ a ∈ ids, w.Ending a) (hExposed : w'.Exposed id) :
    w.Exposed id := by
  refine ⟨cancelled_of_retries h hRetries hEnding hExposed.1, h.acceptable ?_ hExposed.2⟩
  rintro deadline rfl
  cases hRetries

end World

open World

/-- The proof outline: a run owes a withdrawal from the time it has offered the agreement or marked
it until it has seen or made the offer unacceptable, or seen the row not cancelled.  A cancelled
agreement with an offer to accept has a run that owes one. -/
def withdrawals (id : IndexingAgreementId) : Outline World Unit Op Finished Bool where
  rely _ w w' := w.agreements.Grown w'.agreements
  guar _ w owes _ w' owes' := w.agreements.Grown w'.agreements ∧
    (w'.Exposed id → owes' = true ∨ (w.Exposed id ∧ owes = false))
  post _ r owes _ := r.ok = true → owes = false
  inv w owing := w.Exposed id → true ∈ owing

/-- A program of the handshake meets its contract. -/
abbrev Withdraws {α : Type} (config : Config) (id : IndexingAgreementId) (p : Act α)
    (post : α → Bool → World → Prop) (owes : Bool) (w : World) : Prop :=
  p.Meets ((handshake config).Performs ()) ((withdrawals id).rely ()) ((withdrawals id).guar ())
    post owes w

section Steps

variable {config : Config} {w w' : World} {id : IndexingAgreementId} {o : Op} {r : Res o}
  {owes owes' : Bool}

theorem exec_of_performs (h : (handshake config).Performs () w o r w') :
    ∃ c, w.exec o c = some (r, w') := by
  obtain ⟨c, -, hExec⟩ := h
  exact ⟨c, hExec⟩

theorem effect_of_performs (h : (handshake config).Performs () w o r w') : Effect w w' o := by
  obtain ⟨c, hExec⟩ := exec_of_performs h
  exact exec_effect hExec

theorem guar_of_performs (h : (handshake config).Performs () w o r w')
    (hOp : o.registers = false)
    (hExposed : w'.Exposed id → owes' = true ∨ (w.Exposed id ∧ owes = false)) :
    (withdrawals id).guar () w owes o w' owes' :=
  ⟨(effect_of_performs h).grown hOp, hExposed⟩

theorem exposed_of_performs (h : (handshake config).Performs () w o r w')
    (hOffer : ∀ deadline, o ≠ .offerViaManager id deadline)
    (hRow : w'.Cancelled id → w.Cancelled id) (hExposed : w'.Exposed id) : w.Exposed id :=
  ⟨hRow hExposed.1, (effect_of_performs h).acceptable hOffer hExposed.2⟩

theorem guar_of_quiet (h : (handshake config).Performs () w o r w') (hOp : o.registers = false)
    (hExposed : w'.Exposed id → w.Exposed id) : (withdrawals id).guar () w owes o w' owes := by
  refine guar_of_performs h hOp fun hNew => ?_
  cases owes with
  | true => exact .inl rfl
  | false => exact .inr ⟨hExposed hNew, rfl⟩

theorem guar_of_settled (h : (handshake config).Performs () w o r w') (hOp : o.registers = false)
    (hExposed : w'.Exposed id → w.Exposed id) (hOwed : owes = true → ¬ w'.Exposed id) :
    (withdrawals id).guar () w owes o w' false := by
  refine guar_of_performs h hOp fun hNew => .inr ⟨hExposed hNew, ?_⟩
  exact Bool.eq_false_iff.mpr fun hTrue => hOwed hTrue hNew

theorem transaction_atomic {w1 : World} {c : Choice} {r : Except ChainClientError (Option TxHash)}
    (hMined : ∀ tx effective, c = .mined tx effective → effective = true)
    (hError : ∀ e effective, c = .chainError e effective → effective = false)
    (h : w.transaction w1 c = some (r, w')) :
    (w' = w1 ∧ ∃ tx, r = .ok tx) ∨ (w' = w ∧ ∃ e, r = .error e) := by
  cases c with
  | mined tx effective =>
    obtain rfl := hMined tx effective rfl
    obtain ⟨rfl, rfl⟩ := Prod.mk.inj (Option.some.inj h)
    exact .inl ⟨rfl, tx, rfl⟩
  | chainError e effective =>
    obtain rfl := hError e effective rfl
    obtain ⟨rfl, rfl⟩ := Prod.mk.inj (Option.some.inj h)
    exact .inr ⟨rfl, e, rfl⟩
  | _ => cases h

theorem offer_cases {a : IndexingAgreementId} {deadline : Nat}
    {r : Except ChainClientError (Option TxHash)}
    (h : (handshake config).Performs () w (.offerViaManager a deadline) r w') :
    (w' = w.setChain a ((w.chain a).offer deadline) ∧ ∃ tx, r = .ok tx) ∨
      (w' = w ∧ ∃ e, r = .error e) := by
  obtain ⟨c, hAtomic, hExec⟩ := h
  exact transaction_atomic (c := c) (by rintro tx effective rfl; exact hAtomic)
    (by rintro e effective rfl; exact hAtomic) hExec

theorem cancel_cases {a : IndexingAgreementId} {hash : List UInt8}
    {r : Except ChainClientError (Option TxHash)}
    (h : (handshake config).Performs () w (.cancelViaManager a hash) r w') :
    (w' = w.setChain a ((w.chain a).cancel w.chainTime) ∧ ∃ tx, r = .ok tx) ∨
      (w' = w ∧ ∃ e, r = .error e) := by
  obtain ⟨c, hAtomic, hExec⟩ := h
  exact transaction_atomic (c := c) (by rintro tx effective rfl; exact hAtomic)
    (by rintro e effective rfl; exact hAtomic) hExec

end Steps

section Programs

variable {config : Config} {w : World} {id : IndexingAgreementId} {owes : Bool}
  {agreement : IndexingAgreement} {reason : CancelReason}

theorem withdraws_bind {α β : Type} {p : Act α} {k : α → Act β} {post : β → Bool → World → Prop}
    (h : Withdraws config id p (fun a g w => Withdraws config id (k a) post g w) owes w) :
    Withdraws config id (p >>= k) post owes w :=
  Prog.Meets.bind (fun w => .refl w.agreements) h

theorem withdraws_grown {α : Type} {p : Act α} {post : α → Bool → World → Prop}
    (h : Withdraws config id p post owes w) : Withdraws config id p
      (fun a g w' => post a g w' ∧ w.agreements.Grown w'.agreements) owes w :=
  h.reached (fun _ _ _ => .trans) (fun _ _ hRely => hRely) (fun _ _ _ _ _ hGuar => hGuar.1)

theorem withdraws_call {o : Op} {post : Res o → Bool → World → Prop}
    (h : ∀ w1 r w2, (handshake config).Performs () w1 o r w2 → ∃ owes',
      (withdrawals id).guar () w1 owes o w2 owes' ∧
        ∀ w3, w2.agreements.Grown w3.agreements → post r owes' w3) :
    Withdraws config id (call o) post owes w :=
  fun w1 _ r w2 hPerforms => h w1 r w2 hPerforms

/-- A read that does not show the agreement live settles what the run owes. -/
theorem withdraws_agreementOnChain (hOwes : owes = true → agreement.id = id)
    {post : Except ChainClientError AgreementOnChain → Bool → World → Prop}
    (hLive : ∀ w, post (.ok .live) owes w) (hError : ∀ e w, post (.error e) owes w)
    (hOver : ∀ v w, v ≠ .live → post (.ok v) false w) :
    Withdraws config id (ChainClient.agreementOnChain agreement.id) post owes w := by
  refine withdraws_call fun w1 r w2 hPerforms => ?_
  obtain rfl : w2 = w1 := effect_of_performs hPerforms
  by_cases hRead : ∃ v, r = .ok v ∧ v ≠ .live
  · obtain ⟨v, rfl, hv⟩ := hRead
    refine ⟨false, guar_of_settled hPerforms rfl (fun h => h) fun hOwed hExposed => ?_,
      fun w3 _ => hOver v w3 hv⟩
    obtain ⟨c, hExec⟩ := exec_of_performs hPerforms
    obtain ⟨rfl, -⟩ := chainRead_ok hExec
    rw [hOwes hOwed] at hv
    exact (OnChain.of_read_ne_live hv).2 hExposed.2
  · refine ⟨owes, guar_of_quiet hPerforms rfl fun h => h, fun w3 _ => ?_⟩
    match r with
    | .error e => exact hError e w3
    | .ok v =>
      obtain rfl : v = .live := by_contra fun hv => hRead ⟨v, rfl, hv⟩
      exact hLive w3

theorem withdraws_cancelIfLive (hOwes : owes = true → agreement.id = id) :
    Withdraws config id (cancelIfLive agreement)
      (fun cancel owes' _ => owes' = true → agreement.id = id ∧ cancel.settled = false) owes w := by
  have hFree : false = true → agreement.id = id := fun h => absurd h Bool.false_ne_true
  refine withdraws_bind (withdraws_agreementOnChain hOwes ?_ ?_ ?_)
  · intro w1
    simp only [cancelAgreementOnChain]
    split
    · exact fun _ _ hOwed => ⟨hOwes hOwed, rfl⟩
    · refine withdraws_bind (withdraws_call fun w2 r w3 hPerforms => ?_)
      rcases cancel_cases hPerforms with ⟨rfl, tx, rfl⟩ | ⟨rfl, e, rfl⟩
      · refine ⟨false, guar_of_settled hPerforms rfl
          (exposed_of_performs hPerforms nofun fun h => h) fun hOwed hExposed => ?_,
          fun w4 _ => withdraws_bind (withdraws_agreementOnChain hFree ?_ ?_ ?_)⟩
        · obtain rfl := hOwes hOwed
          have hAcceptable := hExposed.2
          rw [chain_setChain, if_pos rfl] at hAcceptable
          exact not_acceptable_cancel hAcceptable
        · exact fun _ _ _ h => absurd h Bool.false_ne_true
        · exact fun _ _ _ _ h => absurd h Bool.false_ne_true
        · intro v w5 hv
          match v with
          | .live => exact absurd rfl hv
          | .notLive => exact fun _ _ h => absurd h Bool.false_ne_true
          | .endedByIndexer => exact fun _ _ h => absurd h Bool.false_ne_true
      · exact ⟨owes, guar_of_quiet hPerforms rfl fun h => h, fun w4 _ w5 _ hOwed =>
          ⟨hOwes hOwed, rfl⟩⟩
  · exact fun e w1 w2 _ hOwed => ⟨hOwes hOwed, rfl⟩
  · intro v w1 hv
    match v with
    | .live => exact absurd rfl hv
    | .notLive => exact fun _ _ h => absurd h Bool.false_ne_true
    | .endedByIndexer => exact fun _ _ h => absurd h Bool.false_ne_true

theorem withdraws_withdrawOfferIfStored (hOwes : owes = true → agreement.id = id) :
    Withdraws config id (SubmitOffer.withdrawOfferIfStored agreement)
      (fun r owes' _ => (Finished.offer r).ok = true → owes' = false) owes w := by
  refine withdraws_bind ((withdraws_cancelIfLive hOwes).mono fun cancel owes1 w1 h => ?_)
  cases owes1 with
  | false =>
    split <;> exact fun _ _ _ => rfl
  | true =>
    obtain ⟨-, hUnsettled⟩ := h rfl
    split
    · cases hUnsettled
    · cases hUnsettled
    all_goals exact fun _ _ hOk => absurd hOk Bool.false_ne_true

theorem select_ok {q : AgreementQuery}
    {r : Except RegistryError (List (IndexingAgreementId × AgreementRow))} {w w' : World}
    (h : (handshake config).Performs () w (.select q) r w') : ∃ rows, r = .ok rows := by
  obtain ⟨c, hAtomic, hExec⟩ := h
  change w.runSelect q c = some (r, w') at hExec
  cases c with
  | fail => exact hAtomic.elim
  | rows ids =>
    simp only [runSelect] at hExec
    split at hExec
    · exact ⟨_, (Prod.mk.inj (Option.some.inj hExec)).1.symm⟩
    · cases hExec
  | _ => cases hExec

theorem withdraws_getById {a : IndexingAgreementId}
    {post : Except RegistryError (Option IndexingAgreement) → Bool → World → Prop}
    (h : ∀ w1 : World, ∃ owes', (w1.Exposed id → owes' = true ∨ owes = false) ∧
      ∀ w2, post (.ok ((w1.row a).map (·.agreement a))) owes' w2) :
    Withdraws config id (Registry.getIndexingAgreementById a) post owes w := by
  refine withdraws_bind (withdraws_call fun w1 r w2 hPerforms => ?_)
  obtain ⟨rows, rfl⟩ := select_ok hPerforms
  obtain ⟨owes', hGuar, hPost⟩ := h w1
  have hHead : (Registry.agreements rows).head? = (w1.row a).map (·.agreement a) := by
    obtain ⟨c, hExec⟩ := exec_of_performs hPerforms
    rw [Registry.agreements, List.head?_map, exec_select_byId hExec, Option.map_map]
    rfl
  obtain rfl : w2 = w1 := effect_of_performs hPerforms
  refine ⟨owes', guar_of_performs hPerforms rfl fun hExposed => ?_, fun w3 _ w4 _ => ?_⟩
  · exact (hGuar hExposed).imp_right fun hOwes => ⟨hExposed, hOwes⟩
  · rw [hHead]
    exact hPost w4

theorem withdraws_cancelledMeanwhile {a : IndexingAgreementId} (hOwes : owes = true → a = id) :
    Withdraws config id (SubmitOffer.cancelledMeanwhile a) (fun found owes' _ =>
      owes' = true → ∃ agreement, found = some agreement ∧ agreement.id = id) owes w := by
  refine withdraws_bind (withdraws_getById fun w1 => ?_)
  by_cases hCancelled : w1.Cancelled a
  · refine ⟨owes, fun _ => ?_, fun w2 => ?_⟩
    · cases owes <;> simp
    · obtain ⟨row, hRow, hStatus⟩ := hCancelled
      rw [hRow]
      refine fun w3 _ hOwed => ⟨row.agreement a, ?_, hOwes hOwed⟩
      exact if_pos hStatus
  · refine ⟨false, fun hExposed => .inr ?_, fun w2 => ?_⟩
    · refine Bool.eq_false_iff.mpr fun hOwed => hCancelled ?_
      rw [hOwes hOwed]
      exact hExposed.1
    · split <;> exact fun _ _ hOwed => absurd hOwed Bool.false_ne_true

theorem withdraws_checkCancelled {a : IndexingAgreementId} (hOwes : owes = true → a = id) :
    Withdraws config id (SubmitOffer.checkCancelled a)
      (fun r owes' _ => (Finished.offer r).ok = true → owes' = false) owes w := by
  refine withdraws_bind ((withdraws_cancelledMeanwhile hOwes).mono fun found owes1 w1 h => ?_)
  split
  · rename_i agreement
    refine withdraws_withdrawOfferIfStored fun hOwed => ?_
    obtain ⟨agreement', hFound, hId⟩ := h hOwed
    rwa [Option.some.inj hFound]
  · refine fun _ _ _ => Bool.eq_false_iff.mpr fun hOwed => ?_
    obtain ⟨agreement, hFound, -⟩ := h hOwed
    cases hFound

/-- An offer is owed a withdrawal until the row has been read again. -/
theorem withdraws_submitOffer :
    Withdraws config id (SubmitOffer.submitOffer agreement)
      (fun r owes' _ => (Finished.offer r).ok = true → owes' = false) false w := by
  have hOwes : decide (agreement.id = id) = true → agreement.id = id := of_decide_eq_true
  refine withdraws_bind (withdraws_call fun w1 r w2 hPerforms => ?_)
  rcases offer_cases hPerforms with ⟨rfl, tx, rfl⟩ | ⟨rfl, e, rfl⟩
  · refine ⟨decide (agreement.id = id), guar_of_performs hPerforms rfl fun hExposed => ?_,
      fun w3 _ => ?_⟩
    · by_cases hId : agreement.id = id
      · exact .inl (decide_eq_true hId)
      · refine .inr ⟨exposed_of_performs hPerforms ?_ (fun h => h) hExposed, rfl⟩
        rintro deadline hOp
        cases hOp
        exact hId rfl
    · cases tx with
      | none => exact withdraws_checkCancelled hOwes
      | some txHash =>
        refine withdraws_bind (withdraws_call fun w4 r w5 hUpdate => ?_)
        refine ⟨_, guar_of_quiet hUpdate rfl (exposed_of_performs hUpdate nofun ?_),
          fun w6 _ => withdraws_checkCancelled hOwes⟩
        exact cancelled_of_update (effect_of_performs hUpdate) rfl
  · refine ⟨false, guar_of_quiet hPerforms rfl fun h => h, fun w3 _ => ?_⟩
    split <;> first | exact fun _ _ _ => rfl | cases ‹Except.error e = _›

theorem withdraws_offer {a : IndexingAgreementId} :
    Withdraws config id (SubmitOffer.handle a)
      (fun r owes' _ => (Finished.offer r).ok = true → owes' = false) false w := by
  have hStep : Withdraws config id (SubmitOffer.nextStep a) (fun _ owes' _ => owes' = false)
      false w := by
    refine withdraws_bind (withdraws_getById fun w1 => ⟨false, fun _ => .inr rfl, fun w2 => ?_⟩)
    split
    · exact fun _ _ => rfl
    · exact fun _ _ => rfl
    · repeat' split
      all_goals exact fun _ _ => rfl
  refine withdraws_bind (hStep.mono fun step owes1 w1 hFree => ?_)
  subst hFree
  split
  · exact fun _ _ _ => rfl
  · exact withdraws_submitOffer
  · exact withdraws_withdrawOfferIfStored fun h => absurd h Bool.false_ne_true
  · exact fun _ _ _ => rfl

theorem withdraws_retries {α : Type} {ids : List IndexingAgreementId} {p : Act α}
    (hp : Retries ids p) (hEnding : ∀ a ∈ ids, w.Ending a) :
    Withdraws config id p (fun _ owes' _ => owes' = owes) owes w := by
  have hStable : ∀ w w' : World, (withdrawals id).rely () w w' →
      (∀ a ∈ ids, w.Ending a) → ∀ a ∈ ids, w'.Ending a :=
    fun _ _ hGrown hEnding a ha => (hEnding a ha).of_grown hGrown
  refine (Prog.Meets.under hStable (fun o ho w1 r w2 hEnding hPerforms => ?_) hp hEnding).mono
    fun _ _ _ h => h.1
  have hEffect := effect_of_performs hPerforms
  exact ⟨guar_of_quiet hPerforms ho.registers (exposed_of_retries hEffect ho hEnding),
    hStable _ _ (hEffect.grown ho.registers) hEnding⟩

/-- A mark owes a withdrawal, unless it found nothing to mark; after one that answered the
agreement is in the hands of a cancel. -/
theorem withdraws_markCancelling :
    Withdraws config id (markCancelling agreement reason) (fun r owes' w' =>
      (owes' = true → agreement.id = id ∧ r ≠ .error .noRecordsUpdated) ∧
        ∀ x, r = .ok x → w'.Ending agreement.id) false w := by
  have hMark : ∀ u : RowUpdate, u.needsRow = true →
      (∀ now row row', u.run now row = some row' → row'.status = .cancelling) →
      Withdraws config id (Registry.update agreement.id u) (fun r owes' w' =>
        (owes' = true → agreement.id = id ∧ r ≠ .error .noRecordsUpdated) ∧
          ∀ x, r = .ok x → w'.Ending agreement.id) false w := by
    intro u hNeeds hSets
    refine withdraws_call fun w1 r w2 hPerforms => ?_
    have hOther : agreement.id ≠ id → w2.Exposed id → w1.Exposed id := by
      intro hId
      refine exposed_of_performs hPerforms nofun fun ⟨row, hRow, hStatus⟩ => ?_
      rw [row_of_update_ne (effect_of_performs hPerforms) (Ne.symm hId)] at hRow
      exact ⟨row, hRow, hStatus⟩
    by_cases hFound : r = .error .noRecordsUpdated
    · subst hFound
      obtain ⟨c, hExec⟩ := exec_of_performs hPerforms
      obtain ⟨rfl, -⟩ := exec_update_missing hExec
      exact ⟨false, guar_of_quiet hPerforms rfl fun h => h,
        fun w3 _ => ⟨fun h => absurd h Bool.false_ne_true, nofun⟩⟩
    · refine ⟨decide (agreement.id = id), guar_of_performs hPerforms rfl fun hExposed => ?_,
        fun w3 hGrown => ⟨fun hOwed => ⟨of_decide_eq_true hOwed, hFound⟩, ?_⟩⟩
      · by_cases hId : agreement.id = id
        · exact .inl (decide_eq_true hId)
        · exact .inr ⟨hOther hId hExposed, rfl⟩
      · rintro x rfl
        obtain ⟨c, hExec⟩ := exec_of_performs hPerforms
        obtain ⟨row, row', hRow, hRun, hRow'⟩ := exec_update_ok hNeeds hExec
        refine Ending.of_grown ⟨row', hRow', ?_⟩ hGrown
        rw [hSets _ _ _ hRun]
        rfl
  cases reason with
  | notWanted =>
    refine hMark .markAsCancelling rfl fun now row row' hRun => ?_
    obtain ⟨-, rfl⟩ := setStatusFrom_eq_some.mp hRun
    rfl
  | abandoned =>
    refine hMark .markAsAbandoning rfl fun now row row' hRun => ?_
    obtain ⟨marked, hSet, rfl⟩ := Option.map_eq_some_iff.mp hRun
    obtain ⟨-, rfl⟩ := setStatusFrom_eq_some.mp hSet
    rfl

theorem withdraws_startCancel :
    Withdraws config id (startCancel config agreement reason)
      (fun r owes' _ => (Finished.cancel r).ok = true → owes' = false) false w := by
  refine withdraws_bind (withdraws_markCancelling.mono fun r owes1 w1 h => ?_)
  obtain ⟨hOwes, hEnding⟩ := h
  split
  · rename_i err
    refine fun _ _ hOk => Bool.eq_false_iff.mpr fun hOwed => (hOwes hOwed).2 ?_
    exact congrArg _ (of_decide_eq_true hOk)
  · rename_i x
    refine withdraws_bind (withdraws_bind ((withdraws_grown (withdraws_cancelIfLive
      fun hOwed => (hOwes hOwed).1)).mono fun cancel owes2 w2 h2 => ?_))
    obtain ⟨hLeft, hGrown⟩ := h2
    cases hSettled : cancel.settled with
    | true =>
      have hFree : owes2 = false := by
        refine Bool.eq_false_iff.mpr fun hOwed => ?_
        rw [(hLeft hOwed).2] at hSettled
        cases hSettled
      subst hFree
      refine (withdraws_retries settlesFor_finishMarkedCancel.settles.retries ?_).mono
        fun s owes3 w3 h _ _ _ => h
      intro a ha
      rw [List.mem_singleton.mp ha]
      exact (hEnding x rfl).of_grown hGrown
    | false =>
      cases cancel with
      | notLive byIndexer => cases hSettled
      | ended txHash => cases hSettled
      | _ => exact fun _ _ _ _ hOk => absurd hOk (by decide)

theorem withdraws_retry :
    Withdraws config id (retryCancellingAgreements config) (fun _ owes' _ => owes' = false)
      false w := by
  refine withdraws_bind (withdraws_call fun w1 r w2 hPerforms => ?_)
  obtain ⟨rows, rfl⟩ := select_ok hPerforms
  obtain rfl : w2 = w1 := effect_of_performs hPerforms
  refine ⟨false, guar_of_quiet hPerforms rfl fun h => h, fun w3 hGrown => ?_⟩
  dsimp only
  split
  · exact fun _ _ => rfl
  · refine withdraws_retries (retries_sweep _) fun a ha => ?_
    simp only [List.map_map, List.mem_map] at ha
    obtain ⟨p, hp, rfl⟩ := ha
    obtain ⟨c, hExec⟩ := exec_of_performs hPerforms
    obtain ⟨hRow, hSelects⟩ := exec_select_row hExec hp
    simp only [AgreementQuery.selects, Bool.and_eq_true, decide_eq_true_eq] at hSelects
    refine Ending.of_grown ⟨p.2, hRow, ?_⟩ hGrown
    rw [hSelects.1.1]
    rfl

end Programs

section Runs

variable {config : Config} {id : IndexingAgreementId}

theorem withdrawals_sound : (withdrawals id).Sound (handshake config) where
  refl _ w := .refl w.agreements
  trans hab hbc := hab.trans hbc
  cross _ hGuar := hGuar.1
  keeps {_ _ owes _ _ owes' i owing} hGuar hi hInv := by
    intro hExposed
    have hLt : i < owing.length := (List.getElem?_eq_some_iff.mp hi).1
    rcases hGuar.2 hExposed with rfl | ⟨hBefore, rfl⟩
    · exact List.mem_set hLt true
    · -- The run that owes the withdrawal is another one.
      obtain ⟨j, hj⟩ := List.mem_iff_getElem?.mp (hInv hBefore)
      have hNe : i ≠ j := by
        rintro rfl
        rw [hi] at hj
        cases hj
      exact List.mem_of_getElem? ((List.getElem?_set_ne hNe).trans hj)
  env {w e w'} hMove := by
    refine ⟨fun _ => ?_, fun hInv hExposed => hInv (exposed_of_outside hMove hExposed)⟩
    change w.agreements.Grown w'.agreements
    rw [(untouched_of_outside hMove).agreements]
    exact .refl _
  start {w attempt th owing} hStart hInv := by
    obtain rfl := Option.some.inj hStart
    refine ⟨false, ?_, fun hExposed => List.mem_append_left _ (hInv hExposed)⟩
    cases attempt with
    | offer a => exact withdraws_bind (withdraws_offer.mono fun r owes w h _ _ => h)
    | cancel agreement reason =>
      exact withdraws_bind (withdraws_startCancel.mono fun r owes w h _ _ => h)
    | retry => exact withdraws_bind (withdraws_retry.mono fun r owes w h _ _ _ => h)
  drop hDrops := by cases hDrops

/-- Once every offer, cancel and sweep has finished without an error, a cancelled agreement that
was `Created` before has no offer that its indexer can accept. -/
theorem no_offer_after_cancel {w : World} {row row' : AgreementRow}
    (hRow : w.row id = some row) (hCreated : row.status = .created)
    {c : (handshake config).Config} (hRun : (handshake config).Run (w, []) c)
    (hDone : ∀ th ∈ c.2, ∃ r, th.prog = .ret r ∧ r.ok = true)
    (hRow' : c.1.row id = some row')
    (hStatus : row'.status = .cancelling ∨ row'.status = .canceledByRequester) :
    ¬ (c.1.chain id).Acceptable c.1.chainTime := by
  intro hAcceptable
  have hInit : (withdrawals id).inv w [] := by
    rintro ⟨⟨row1, hRow1, hCancelled⟩, -⟩
    obtain rfl := Option.some.inj (hRow.symm.trans hRow1)
    rw [hCreated] at hCancelled
    cases hCancelled
  obtain ⟨owing, hHolds⟩ := (Outline.holds_init hInit).run withdrawals_sound hRun
  have hExposed : c.1.Exposed id := by
    refine ⟨⟨row', hRow', ?_⟩, hAcceptable⟩
    rcases hStatus with h | h <;> rw [h] <;> rfl
  obtain ⟨i, hi⟩ := List.mem_iff_getElem?.mp (hHolds.inv hExposed)
  have hLt : i < c.2.length := by
    rw [← hHolds.length]
    exact (List.getElem?_eq_some_iff.mp hi).1
  obtain ⟨r, hProg, hOk⟩ := hDone c.2[i] (List.getElem_mem hLt)
  have hFollows := hHolds.follows (List.getElem?_eq_getElem hLt) hi
  unfold Outline.Follows at hFollows
  rw [hProg] at hFollows
  exact absurd (hFollows c.1 (.refl _) hOk) (by decide)

/-- An offer job has read the row when a cancel marks it; the offer lands and the cancel withdraws
it, so that the job finds nothing left to withdraw. -/
def racedMoves : List (Move Choice Attempt Outside) :=
  [.start (.offer 10), .op 0 (.rows [10]),
    .start (.cancel (sampleAgreement.agreement 10) .notWanted), .op 1 .ok,
    .op 0 (.mined (some "0xaa") true), .op 1 .ok, .op 1 (.mined (some "0xcc") true), .op 1 .ok,
    .op 0 .ok, .op 0 (.rows [10]), .op 0 .ok]

def allOk (threads : List (Thread Unit Op Res Finished)) : Bool :=
  threads.all fun th => match th.prog with
    | .ret r => r.ok
    | .op _ _ => false

theorem ret_of_allOk {threads : List (Thread Unit Op Res Finished)} (h : allOk threads = true)
    (th : Thread Unit Op Res Finished) (hMem : th ∈ threads) :
    ∃ r, th.prog = .ret r ∧ r.ok = true := by
  have hDone := List.all_eq_true.mp h th hMem
  split at hDone
  · rename_i r hProg
    exact ⟨r, hProg, hDone⟩
  · cases hDone

theorem no_offer_after_raced_cancel : ∃ c : (handshake sampleConfig).Config,
    (handshake sampleConfig).Run (offeredWorld, []) c ∧
    allOk c.2 = true ∧ (∃ row, c.1.row 10 = some row ∧ row.status = .cancelling) ∧
    ¬ (c.1.chain 10).Acceptable c.1.chainTime := by
  obtain ⟨c, hRun, hEnd⟩ := System.exists_run_of_moves
    (S := handshake sampleConfig) (c := (offeredWorld, []))
    (fun _ _ o choice => of_decide_eq_true (p := AtomicCalls o choice)) racedMoves
    (fun c => allOk c.2 && (c.1.row 10).any (·.status = .cancelling)) (by decide +kernel)
  simp only [Bool.and_eq_true, Option.any_eq_true, decide_eq_true_eq] at hEnd
  obtain ⟨hDone, row, hRow, hStatus⟩ := hEnd
  have hOffered : offeredWorld.row 10 = some sampleAgreement := rfl
  refine ⟨c, hRun, hDone, ⟨row, hRow, hStatus⟩, ?_⟩
  exact no_offer_after_cancel hOffered rfl hRun (ret_of_allOk hDone) hRow (.inl hStatus)

end Runs

end Dipper
