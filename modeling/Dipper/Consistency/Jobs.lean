import Dipper.Consistency.Cancel

/-! The workers and the services that end agreements keep to the discipline. -/

namespace Dipper

open World

variable {config : Config} {allow : World → Tag → Op → Choice → Prop} {t : Tag} {w : World}
  {id : IndexingAgreementId} {request : IndexingRequestId} {a : IndexingAgreement}

section Offer

theorem keeps_withdrawOfferIfStored :
    Keeps config allow t (fun _ _ => True) (SubmitOffer.withdrawOfferIfStored a) w := by
  refine keeps_bind keeps_cancelIfLive fun cancel w1 _ _ _ => ?_
  split <;> exact keeps_done

theorem keeps_checkCancelled :
    Keeps config allow t (fun _ _ => True) (SubmitOffer.checkCancelled id) w := by
  refine keeps_bind (m := fun _ _ => True) ?_ fun cancelled w1 _ _ _ => ?_
  · refine keeps_getIndexingAgreementById (fun e w1 _ _ => keeps_done)
      (fun w1 _ _ _ => keeps_done) fun row w1 _ _ _ => ?_
    exact keeps_done
  · cases cancelled with
    | none => exact keeps_done
    | some agreement => exact keeps_withdrawOfferIfStored

theorem keeps_submitOffer (hKnows : w.Knows a)
    (hJob : ∃ request, Job.submitOffer a.id request ∈ w.jobs) :
    Keeps config allow .submitOffer (fun _ _ => True) (SubmitOffer.submitOffer a) w := by
  refine keeps_call fun w1 _ hGrows _ => ⟨⟨rfl, ?_⟩, fun c r w2 _ _ _ => ?_⟩
  · obtain ⟨row, hRow, hTerms, -⟩ := (hKnows.mono hGrows).stored
    obtain ⟨request, hMem⟩ := hJob
    exact ⟨row, hRow, by rw [hTerms], request, hGrows.jobs _ hMem⟩
  · split
    · exact keeps_checkCancelled
    · exact keeps_free (fun _ _ _ => trivial) fun _ _ _ _ => keeps_checkCancelled
    all_goals exact keeps_done

theorem keeps_submitOfferJob (hJob : Job.submitOffer id request ∈ w.jobs) :
    Keeps config allow .submitOffer (fun _ _ => True) (SubmitOffer.handle id) w := by
  refine keeps_bind (m := fun r w' => ∀ a, r = .ok (.offer a) → a.id = id ∧ w'.Knows a) ?_
    fun r w1 _ hGrows hOffer => ?_
  · refine keeps_getIndexingAgreementById (fun e w1 _ _ => keeps_ret fun _ _ _ => nofun)
      (fun w1 _ _ _ => keeps_ret fun _ _ _ => nofun) fun row w1 hInv1 _ hRow => ?_
    dsimp only
    split
    · refine keeps_ret fun w2 _ hGrows2 a hEq => ?_
      simp only [Except.ok.injEq, SubmitOffer.NextStep.offer.injEq] at hEq
      subst hEq
      exact ⟨rfl, (hInv1.read hRow).knows.mono hGrows2⟩
    · split <;> exact keeps_ret fun _ _ _ => nofun
  · split
    · exact keeps_done
    · rename_i a
      obtain ⟨rfl, hKnows⟩ := hOffer a rfl
      exact keeps_submitOffer hKnows ⟨request, hGrows.jobs _ hJob⟩
    · exact keeps_withdrawOfferIfStored
    · exact keeps_done

end Offer

section Proposal

theorem keeps_queueReassessment :
    Keeps config allow t (fun _ _ => True) (SendProposal.queueReassessment request) w := by
  refine keeps_free (fun _ => trivial) fun r w1 _ _ => ?_
  cases r with
  | error e => exact keeps_done
  | ok stored =>
    refine keeps_free (fun _ => trivial) fun r w2 _ _ => ?_
    cases r <;> exact keeps_done

/-- The pending cancellations of an agreement that is no longer on offer may go. -/
theorem keeps_deletePendingByNew {β : Type} {post : β → World → Prop}
    {k : Except RegistryError Unit → Act β} {row : AgreementRow} (hRow : w.row id = some row)
    (hStatus : row.status ≠ .created)
    (h : ∀ r w', w'.Consistent → w.Grows w' → Keeps config allow t post (k r) w') :
    Keeps config allow t post
      (Registry.deletePendingCancellationsByNewAgreement id >>= k) w := by
  refine keeps_call fun w1 _ hGrows _ => ⟨?_, fun c r w2 _ hInv2 hGrows2 =>
    h r w2 hInv2 (hGrows.trans hGrows2)⟩
  obtain ⟨row', hRow', hGrows'⟩ := hGrows.rows id row hRow
  exact ⟨row', hRow', hGrows'.status.ne_created hStatus⟩

theorem keeps_markAndReassess {mark : RowUpdate} (hNeeds : mark.needsRow = true)
    (hPre : ∀ w row, UpdatePre config t w id row mark)
    (hMark : ∀ now row row', mark.run now row = some row' → row'.status ≠ .created) :
    Keeps config allow t (fun _ _ => True) (SendProposal.markAndReassess id request mark) w := by
  refine keeps_update hNeeds (fun w1 row _ _ _ => hPre w1 row)
    (fun w1 _ _ => keeps_done)
    (fun w1 _ _ _ => keeps_done) ?_
  intro x w1 row row' w2 _ _ _ hRun hRow' _ _
  refine keeps_deletePendingByNew hRow' (hMark _ _ _ hRun) fun r w3 _ _ => ?_
  cases r with
  | error e => exact keeps_done
  | ok x => exact keeps_queueReassessment

theorem keeps_markRejectedAndReassess {reason : String} :
    Keeps config allow t (fun _ _ => True)
      (SendProposal.markRejectedAndReassess id request reason) w := by
  refine keeps_markAndReassess rfl (fun _ _ => trivial) fun now row row' hRun => ?_
  obtain ⟨moved, hSet, rfl⟩ := Option.map_eq_some_iff.mp hRun
  obtain ⟨-, rfl⟩ := setStatusFrom_eq_some.mp hSet
  nofun

theorem keeps_markFailedAndReassess :
    Keeps config allow t (fun _ _ => True)
      (SendProposal.markFailedAndReassess id request) w := by
  refine keeps_markAndReassess rfl (fun _ _ => trivial) fun now row row' hRun => ?_
  obtain ⟨-, rfl⟩ := setStatusFrom_eq_some.mp hRun
  nofun

theorem keeps_sendProposalJob :
    Keeps config allow t (fun _ _ => True) (SendProposal.handle id request) w := by
  refine keeps_getIndexingAgreementById (fun e w1 _ _ => keeps_done)
    (fun w1 _ _ _ => keeps_done) fun row w1 _ _ _ => ?_
  dsimp only
  split
  · exact keeps_done
  · refine keeps_free (fun _ => trivial) fun reply w2 _ _ => ?_
    cases reply with
    | accepted =>
      refine keeps_free (fun _ => trivial) fun r w3 _ _ => ?_
      cases r <;> exact keeps_done
    | rejected reason => exact keeps_markRejectedAndReassess
    | noOutcome => exact keeps_markRejectedAndReassess
    | failed => exact keeps_markFailedAndReassess

end Proposal

section ChainCheck

theorem keeps_reopen {seenLive : Bool} :
    Keeps config allow t (fun r w' => r = .ok .reopened → w'.Ending a.id)
      (reopen a seenLive) w := by
  refine keeps_update rfl (fun _ _ _ _ _ => trivial) (fun w1 _ _ => keeps_ret fun _ _ _ => nofun)
    (fun w1 _ _ _ => keeps_ret fun _ _ _ => nofun) ?_
  intro x w1 row row' w2 _ _ _ hRun hRow' _ _
  obtain ⟨moved, hSet, rfl⟩ := Option.map_eq_some_iff.mp hRun
  obtain ⟨-, rfl⟩ := setStatusFrom_eq_some.mp hSet
  have hEnding : w2.Ending a.id := ⟨_, hRow', rfl⟩
  exact keeps_ret fun w3 _ hGrows _ => hEnding.mono hGrows

theorem keeps_reopenIfLive :
    Keeps config allow t (fun r w' => r = .ok .reopened → w'.Ending a.id) (reopenIfLive a) w := by
  refine keeps_agreementOnChain (fun e w1 _ _ => ?_) fun w1 _ _ => ?_
  · dsimp only
    split
    · exact keeps_ret fun _ _ _ => nofun
    · exact keeps_reopen
  · cases (w1.chain a.id).read w1.chainTime with
    | live => exact keeps_reopen
    | _ => exact keeps_ret fun _ _ _ => nofun

theorem keeps_reopenJob :
    Keeps config allow t (fun r w' => r = .ok true → w'.Ending a.id) (CancelRejected.reopen a) w := by
  refine keeps_bind keeps_reopenIfLive fun r w1 _ _ hMoved => ?_
  split
  · exact keeps_ret fun _ _ _ => nofun
  · exact keeps_ret fun w2 _ hGrows _ => (hMoved rfl).mono hGrows
  · exact keeps_ret fun _ _ _ => nofun
  · exact keeps_ret fun _ _ _ => nofun

theorem keeps_recordAccept {accept : Option ChainAccept}
    (hJob : Job.cancelRejectedAgreementOnChain id accept ∈ w.jobs)
    (hEnding : w.Ending id) :
    Keeps config allow t (fun _ _ => True) (CancelRejected.recordAccept id accept) w := by
  cases accept with
  | none => exact keeps_done
  | some accept =>
    refine keeps_call fun w1 hInv1 hGrows _ => ⟨fun row hRow => ?_, fun c r w2 _ _ _ => ?_⟩
    · obtain ⟨row1, hRow1, hEnding1⟩ := hEnding.mono hGrows
      obtain rfl := Option.some.inj (hRow.symm.trans hRow1)
      have hJob1 := hGrows.jobs _ hJob
      obtain ⟨-, -, -, hAccepted⟩ := hInv1.checks id _ hJob1
      exact ⟨hEnding1, hAccepted.wasAccepted, .inr ⟨_, hJob1⟩⟩
    · cases r <;> exact keeps_done

theorem keeps_cancelRejectedJob {accept : Option ChainAccept}
    (hJob : Job.cancelRejectedAgreementOnChain id accept ∈ w.jobs) :
    Keeps config allow t (fun _ _ => True) (CancelRejected.handle id accept) w := by
  refine keeps_getIndexingAgreementById (fun e w1 _ _ => keeps_done)
    (fun w1 _ _ _ => keeps_done) fun row w1 _ hGrows hRow => ?_
  dsimp only
  split
  case h_3 hStatus =>
    exact keeps_recordAccept (hGrows.jobs _ hJob)
      ⟨row, hRow, by rw [show row.status = _ from hStatus]; rfl⟩
  case h_4 => exact keeps_done
  -- A row that was rejected or given up is reopened first.
  all_goals
    refine keeps_bind keeps_reopenJob fun r w2 _ hGrows2 hMoved => ?_
    split
    · exact keeps_done
    · exact keeps_recordAccept ((hGrows.trans hGrows2).jobs _ hJob) (hMoved rfl)
    · exact keeps_done

end ChainCheck

end Dipper
