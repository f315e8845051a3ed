import Dipper.Consistency.Runs

/-! Live agreements: once the chain listener has dealt with a page that shows an agreement
accepted, dipper follows it for as long as it is live on the chain, or has a chain check queued. -/

namespace Dipper

open World

variable {config : Config} {w w' : World} {id : IndexingAgreementId} {o : Op} {t : Tag}
  {choice : Choice}

/-- What keeps dipper from losing track of an agreement: a proposal is given up as undelivered
only while the chain does not show the agreement live, no offer is made for one given up, and none
that the listener read as open for its page is rejected before the page is written. -/
def KeepsTrack (w : World) (_ : Tag) (o : Op) (_ : Choice) : Prop :=
  match o with
  | .update id .markAsUnresponsive => (w.chain id).read w.chainTime ≠ .live
  | .offerViaManager id _ => ∀ row ∈ w.row id, row.status ≠ .unresponsive
  | .applyReconciliationBatch _ => ∀ p ∈ w.pageListed, p.2.status ∈ acceptFrom →
      ∀ row ∈ w.row p.1, row.status ≠ .rejected
  | _ => True

instance (w : World) (t : Tag) (o : Op) (choice : Choice) :
    Decidable (KeepsTrack w t o choice) := by
  induction o using Op.casesOn with
  | update id u =>
    induction u using RowUpdate.casesOn with
    | markAsUnresponsive => exact instDecidableNot
    | _ => exact isTrue trivial
  | offerViaManager id deadline =>
    exact inferInstanceAs (Decidable (∀ row ∈ w.row id, row.status ≠ .unresponsive))
  | applyReconciliationBatch items => exact List.decidableBAll _ _
  | _ => exact isTrue trivial

def trackedStatuses : List IndexingAgreementStatus := [.acceptedOnChain, .cancelling]

theorem statusesHeld_tracked : StatusesHeld trackedStatuses := by decide

namespace World

/-- Dipper follows the agreement, or a chain check of it is queued. -/
def Tracks (w : World) (id : IndexingAgreementId) : Prop :=
  w.CheckQueued id ∨ w.Followed trackedStatuses id

theorem Tracks.mono (h : w.Tracks id) (hGrows : w.Grows w') : w'.Tracks id :=
  h.imp hGrows.checkQueued (hGrows.followed statusesHeld_tracked)

/-- No agreement given up is live on the chain, and every agreement that the listener accepted or
saw accepted is tracked. -/
structure KeptTrack (w : World) : Prop where
  givenUp : ∀ id row, w.row id = some row → row.status = .unresponsive →
    (w.chain id).read w.chainTime ≠ .live
  applied : ∀ id ∈ w.acceptsApplied, w.Tracks id
  noted : ∀ since snapshots unapplied, Note.pageDone since snapshots unapplied ∈ w.journal →
    ∀ x ∈ snapshots, x.state = .accepted → x.agreementId ∉ unapplied → w.Tracks x.agreementId

/-- What was settled without an accept to apply has ended, unless it is followed. -/
theorem KeptTrack.tracks_of_settled (h : w.KeptTrack) (hw : w.Consistent)
    (hFollowed : w.Followed settledStatuses id) : w.Tracks id := by
  obtain ⟨hSeen, hState⟩ := hFollowed
  have hAccepted : (w.chain id).WasAccepted :=
    ((hw.pinned id).trans (hw.indexed id)).accepted hSeen
  refine .inr ⟨hSeen, ?_⟩
  rcases hState with hEnded | ⟨row, hRow, hMem⟩
  · exact .inl hEnded
  have hOk := hw.rows id row hRow
  simp only [settledStatuses, List.mem_cons, List.not_mem_nil, or_false] at hMem
  rcases hMem with hStatus | hStatus | hStatus | hStatus | hStatus
  · exact .inr ⟨row, hRow, by rw [hStatus]; decide⟩
  · exact .inr ⟨row, hRow, by rw [hStatus]; decide⟩
  · exact .inl (OnChain.isEnded_of_read hAccepted (h.givenUp id row hRow hStatus))
  · exact .inl (hOk.ended (.inl hStatus))
  · exact .inl (hOk.ended (.inr hStatus))

theorem KeptTrack.givenUp_step (h : w.KeptTrack) (hPerformed : Performed config t w o w')
    (hAllow : KeepsTrack w t o choice) {row' : AgreementRow} (hRow' : w'.row id = some row')
    (hStatus : row'.status = .unresponsive) : (w'.chain id).read w'.chainTime ≠ .live := by
  have hTime := hPerformed.effect.changes.chainTime
  have hEffect := hPerformed.rowEffect id
  rw [hRow'] at hEffect
  rcases hEffect.status with ⟨row, hRow, hSame⟩ | ⟨u, rfl, hSets⟩ | hAccepted | hEnded | ⟨-, hNew⟩
  · have hBefore := h.givenUp id row hRow (hSame ▸ hStatus)
    rcases hPerformed.effect.changes.chain id with hEq | ⟨deadline, rfl, -⟩ | ⟨hash, -, hEq⟩
    · rw [hEq, hTime]
      exact hBefore
    · exact absurd (hSame ▸ hStatus) (hAllow row hRow)
    · rw [hEq, hTime]
      exact OnChain.read_cancel_ne_live hBefore
  · rw [hStatus] at hSets
    have hMark : u = .markAsUnresponsive := by
      cases u <;> first | rfl | cases hSets
    subst hMark
    rcases hPerformed.effect.changes.chain id with hEq | ⟨deadline, hOp, -⟩ | ⟨hash, hOp, -⟩
    · rw [hEq, hTime]
      exact hAllow
    · cases hOp
    · cases hOp
  · rw [hStatus] at hAccepted
    cases hAccepted
  · rw [hStatus] at hEnded
    cases hEnded
  · rw [hStatus] at hNew
    cases hNew

/-- A page's accept moves the row on that it was made for, or finds the agreement followed. -/
theorem KeptTrack.applied_step (h : w.KeptTrack) (hw : w.Consistent)
    {items : List ReconciliationItem}
    (hPerformed : Performed config t w (.applyReconciliationBatch items) w')
    (hAllow : KeepsTrack w t (.applyReconciliationBatch items) choice)
    {agreements : Agreements} {outcomes : Outcomes}
    (hOk : w.agreements.applyReconciliationBatch w.now items = .ok (agreements, outcomes))
    (hRows : w'.agreements = agreements) {item : ReconciliationItem} (hItem : item ∈ items)
    (hApplies : item.applyAccept = true) : w'.Tracks item.agreementId := by
  have hItemOk := hPerformed.pre.2.2 item hItem
  obtain ⟨hSeen, hState⟩ := hItemOk.accept hApplies
  have hGrowsPinned := (hw.pinned item.agreementId).trans (hw.indexed item.agreementId)
  have hAccepted := hGrowsPinned.accepted hSeen
  have hEnd : (w.chain item.agreementId).IsEnded → w'.Tracks item.agreementId := fun hEnded =>
    .inr ⟨(hPerformed.pinned hw _).accepted hSeen, .inl ((hPerformed.chain _).ended hEnded)⟩
  rcases hState with hEnded | ⟨row, hRow, hOpen⟩
  · exact hEnd hEnded
  cases hCancel : item.cancel with
  | some kind => exact hEnd (hGrowsPinned.ended (hItemOk.isEnded hCancel hSeen))
  | none =>
    obtain ⟨read, hListed, hFrom⟩ := hItemOk.listed hApplies
    have hRejected := hAllow _ hListed hFrom row hRow
    have hRow' : w'.row item.agreementId =
        some (Agreements.reconcileRow w.now item row) :=
      World.row_of_batch hPerformed.pre.2.1 hOk hRows hItem hRow
    have hStay : (Agreements.reconcileRow w.now item row).status ∈ trackedStatuses →
        w'.Tracks item.agreementId := fun hMem =>
      .inr ⟨(hPerformed.pinned hw _).accepted hSeen, .inr ⟨_, hRow', hMem⟩⟩
    rw [Agreements.reconcileRow_status, hApplies, hCancel, Agreements.transition_accept] at hStay
    by_cases hAccepts : row.status ∈ acceptFrom
    · rw [if_pos hAccepts] at hStay
      exact hStay (List.mem_cons_self ..)
    · rw [if_neg hAccepts] at hStay
      by_cases hGivenUp : row.status = .unresponsive
      · exact hEnd (OnChain.isEnded_of_read hAccepted (h.givenUp _ row hRow hGivenUp))
      · refine hStay ?_
        dsimp only
        revert hOpen hAccepts hRejected hGivenUp
        cases row.status <;> decide

theorem KeptTrack.step (h : w.KeptTrack) (hw : w.Consistent)
    (hPerformed : Performed config t w o w') (hAllow : KeepsTrack w t o choice) :
    w'.KeptTrack where
  givenUp id row' hRow' hStatus := h.givenUp_step hPerformed hAllow hRow' hStatus
  applied id hMem := by
    have hGrows := hPerformed.grows hw
    rcases hPerformed.effect.changes.acceptsApplied with hEq | ⟨items, t, outcomes, rfl, hOk, hRows,
      hEq⟩
    · rw [hEq] at hMem
      exact (h.applied id hMem).mono hGrows
    · rw [hEq] at hMem
      rcases List.mem_append.mp hMem with hOld | hNew
      · exact (h.applied id hOld).mono hGrows
      · obtain ⟨item, hItem, rfl⟩ := List.mem_map.mp hNew
        obtain ⟨hItem, hApplies⟩ := List.mem_filter.mp hItem
        exact h.applied_step hw hPerformed hAllow hOk hRows hItem hApplies
  noted since snapshots unapplied hNote x hx hState hDone := by
    have hGrows := hPerformed.grows hw
    have hOld : Note.pageDone since snapshots unapplied ∈ w.journal → w'.Tracks x.agreementId :=
      fun hNote => (h.noted since snapshots unapplied hNote x hx hState hDone).mono hGrows
    rcases hPerformed.effect.changes.journal with hEq | ⟨n, rfl, hEq⟩
    · exact hOld (hEq ▸ hNote)
    · rw [hEq] at hNote
      rcases List.mem_append.mp hNote with hNote | hNote
      · exact hOld hNote
      · obtain rfl := List.mem_singleton.mp hNote
        refine Tracks.mono ?_ hGrows
        rcases (hPerformed.pre.2 x hx hDone).live hState with hCheck | hSettled | hApplied
        · exact .inl hCheck
        · exact h.tracks_of_settled hw hSettled
        · exact h.applied _ hApplied

theorem KeptTrack.outside {e : Outside} (h : w.KeptTrack) (hw : w.Consistent)
    (hMove : e.move config w = some w') : w'.KeptTrack := by
  have hUntouched := untouched_of_outside hMove
  have hGrows := (outside_keeps hw hMove).2
  refine ⟨fun id row hRow hStatus => ?_, fun id hMem => ?_, ?_⟩
  · rw [hUntouched.sameRow] at hRow
    have hBefore := h.givenUp id row hRow hStatus
    rcases chain_of_outside hMove id with hEq | hAccept | ⟨by', hFinish⟩
    · rw [hEq]
      exact OnChain.read_ne_live_of_later hGrows.time hBefore
    · exact absurd (OnChain.read_of_accept hAccept) hBefore
    · exact absurd (OnChain.read_of_finish hFinish) hBefore
  · rw [hUntouched.acceptsApplied] at hMem
    exact (h.applied id hMem).mono hGrows
  · intro since snapshots unapplied hNote x hx hState hDone
    rw [hUntouched.journal] at hNote
    exact (h.noted since snapshots unapplied hNote x hx hState hDone).mono hGrows

end World

section Runs

variable {now chainTime : Nat} {requests : Requests} {since : Cursor}
  {snapshots : List AgreementStateSnapshot} {unapplied : List IndexingAgreementId}
  {x : AgreementStateSnapshot}

theorem keptTrack_of_run {c : (services config KeepsTrack).Config}
    (hRun : (services config KeepsTrack).Run (fresh now chainTime requests) c) :
    c.1.KeptTrack := by
  refine invariant_of_run ⟨fun id row hRow => (by cases hRow), fun id hMem => (by cases hMem),
    fun _ _ _ hNote => (by cases hNote)⟩ ?_ ?_ hRun
  · intro w t o choice r w' hw h hAllow _ hPerformed
    exact h.step hw hPerformed hAllow
  · intro w w' e hw h hMove
    exact h.outside hw hMove

/-- Once a page that shows an agreement accepted has been dealt with, the agreement is accepted or
cancelling in the registry, or a chain check of it is queued, for as long as it is live. -/
theorem live_agreement_tracked {c : (services config KeepsTrack).Config}
    (hRun : (services config KeepsTrack).Run (fresh now chainTime requests) c)
    (hNote : Note.pageDone since snapshots unapplied ∈ c.1.journal) (hx : x ∈ snapshots)
    (hState : x.state = .accepted) (hDone : x.agreementId ∉ unapplied)
    (hLive : (c.1.chain x.agreementId).Live) :
    (∃ row, c.1.row x.agreementId = some row ∧
      (row.status = .acceptedOnChain ∨ row.status = .cancelling)) ∨
    c.1.CheckQueued x.agreementId := by
  rcases (keptTrack_of_run hRun).noted since snapshots unapplied hNote x hx hState hDone with
    hCheck | ⟨-, hEnded | ⟨row, hRow, hMem⟩⟩
  · exact .inr hCheck
  · cases hChain : c.1.chain x.agreementId <;> rw [hChain] at hEnded hLive <;>
      first | exact hEnded.elim | exact hLive.elim
  · refine .inl ⟨row, hRow, ?_⟩
    simpa [trackedStatuses] using hMem

theorem live_agreement_accepted : ∃ c : (services sampleConfig KeepsTrack).Config,
    (services sampleConfig KeepsTrack).Run (fresh 5 5 sampleRequests) c ∧
    (c.1.chain 10).Live ∧ ((∃ row, c.1.row 10 = some row ∧
      (row.status = .acceptedOnChain ∨ row.status = .cancelling)) ∨ c.1.CheckQueued 10) := by
  obtain ⟨c, hRun, hEnd⟩ := exists_run_of_allowed sampleConfig KeepsTrack
    (fresh 5 5 sampleRequests) (offerMoves 10 1 ++ submitMoves 10 ++ acceptMoves ++ [.op 0 .ok])
    (fun c => (c.1.chain 10).Live &&
      Note.pageDone .genesis [sampleSnapshot 10 .accepted 3 5 0] [] ∈ c.1.journal)
    (by decide +kernel)
  simp only [Bool.and_eq_true, decide_eq_true_eq] at hEnd
  obtain ⟨hLive, hNote⟩ := hEnd
  refine ⟨c, hRun, hLive, ?_⟩
  exact live_agreement_tracked (x := sampleSnapshot 10 .accepted 3 5 0) hRun hNote
    (List.mem_singleton.mpr rfl) rfl List.not_mem_nil hLive

/-- The proposal job of agreement 10 runs again after its offer was made, and its delivery fails
this time. -/
def undeliveredMoves : Moves :=
  [.start (.job (.sendIndexingAgreementProposal 10 1)), .op 0 (.rows [10]), .op 0 (.reply .failed),
    .op 0 .ok, .op 0 .ok, .op 0 .ok, .op 0 .ok, .drop 0]

/-- The offer of an agreement given up as undelivered is accepted on the chain, and the poll that
reads the accept does nothing about it. -/
theorem live_agreement_forgotten : ∃ c : (allServices sampleConfig).Config,
    (allServices sampleConfig).Run (fresh 5 5 sampleRequests) c ∧
    Note.pageDone .genesis [sampleSnapshot 10 .accepted 3 5 0] [] ∈ c.1.journal ∧
    (c.1.chain 10).Live ∧ (∃ row, c.1.row 10 = some row ∧ row.status = .unresponsive) ∧
    ¬ c.1.CheckQueued 10 := by
  obtain ⟨c, hRun, hEnd⟩ := exists_run sampleConfig (fresh 5 5 sampleRequests)
    (offerMoves 10 1 ++ submitMoves 10 ++ undeliveredMoves ++ acceptMoves)
    (fun c => Note.pageDone .genesis [sampleSnapshot 10 .accepted 3 5 0] [] ∈ c.1.journal &&
      (c.1.chain 10).Live && (c.1.row 10).any (·.status = .unresponsive) &&
      c.1.jobs.all fun job => !job.checksChain)
    (by decide +kernel)
  simp only [Option.any_eq_true, Bool.and_eq_true, decide_eq_true_eq, List.all_eq_true] at hEnd
  obtain ⟨⟨⟨hNote, hLive⟩, hRow⟩, hJobs⟩ := hEnd
  refine ⟨c, hRun, hNote, hLive, hRow, ?_⟩
  rintro ⟨accept, hMem⟩
  cases hJobs _ hMem

end Runs

end Dipper
