import Dipper.Consistency.Runs

/-! The history of an agreement's status: along every run of the services each change is one of the
state machine's, and the abandoned mark decides how a cancel by dipper ends. -/

namespace Dipper

open World

/-- The transactions that can accept and cancel one agreement. -/
def Op.reconciles : Op → Bool
  | .applyReconciliation .. | .applyReconciliationBatch _ => true
  | _ => false

/-- The change of a status in one step; a reconciliation makes two, the accept and the cancel. -/
def StatusStep (reconciles : Bool) (s s' : IndexingAgreementStatus) : Prop :=
  s' = s ∨ StatusChange s s' ∨
    (reconciles = true ∧ StatusChange s .acceptedOnChain ∧ StatusChange .acceptedOnChain s')

namespace StatusStep

variable {reconciles : Bool} {s s' : IndexingAgreementStatus}

theorem of_final (h : StatusStep reconciles s s') (hFinal : s.next = []) : s' = s := by
  rcases h with hSame | hChange | ⟨-, hAccept, -⟩
  · exact hSame
  · rw [StatusChange, hFinal] at hChange
    cases hChange
  · rw [StatusChange, hFinal] at hAccept
    cases hAccept

theorem ne_accepted (h : StatusStep reconciles .cancelling s') : s' ≠ .acceptedOnChain := by
  rcases h with rfl | hChange | ⟨-, hAccept, -⟩
  · nofun
  · rintro rfl
    revert hChange
    decide
  · exact absurd hAccept (by decide)

theorem of_abandoned (h : StatusStep reconciles s .abandonedByIndexer) :
    s = .abandonedByIndexer ∨ s = .cancelling := by
  rcases h with hSame | hChange | ⟨-, -, hCancel⟩
  · exact .inl hSame.symm
  · revert hChange
    cases s <;> decide
  · exact absurd hCancel (by decide)

end StatusStep

variable {w w' : World} {id : IndexingAgreementId} {row row' : AgreementRow} {o : Op} {t : Tag}

/-- A cancel ends a row marked abandoned only from `Cancelling`, and any other as the chain says. -/
theorem change_cancelStatus (hOk : w.RowOk id row) {kind : CancelKind}
    (hFrom : row.status ∈ Agreements.cancelFrom kind) :
    StatusChange row.status (Agreements.cancelStatus kind row) := by
  cases hMark : row.abandoned with
  | false =>
    cases kind with
    | byRequester =>
      simp only [Agreements.cancelStatus, hMark]
      revert hFrom
      cases row.status <;> decide
    | byIndexer =>
      simp only [Agreements.cancelStatus]
      revert hFrom
      cases row.status <;> decide
  | true =>
    have hEnding := (hOk.abandoned hMark).1
    have hCancelling : row.status = .cancelling := by
      revert hFrom hEnding
      cases kind <;> cases row.status <;> decide
    rw [hCancelling]
    cases kind <;> simp only [Agreements.cancelStatus, hMark] <;> decide

theorem statusStep_transition (hOk : w.RowOk id row) (now : Nat) (applyAccept : Bool)
    (cancel : Option CancelKind) :
    StatusStep true row.status (Agreements.transition now applyAccept cancel row).1.status := by
  have hAccept : row.status ∈ acceptFrom → StatusChange row.status .acceptedOnChain := by
    cases row.status <;> decide
  rcases Agreements.transition_cases now applyAccept cancel row with hNone | ⟨-, -, hFrom, hOnly⟩ |
    ⟨kind, -, hFrom, hOnly⟩ | ⟨kind, -, -, hFrom, hBoth⟩
  · rw [hNone]
    exact .inl rfl
  · rw [hOnly]
    exact .inr (.inl (hAccept hFrom))
  · rw [hOnly]
    exact .inr (.inl (change_cancelStatus hOk hFrom))
  · -- A row that can still be accepted is not marked abandoned.
    have hPlain := hOk.plain_of_mem hFrom (by decide)
    rw [hBoth]
    refine .inr (.inr ⟨rfl, hAccept hFrom, ?_⟩)
    cases kind <;> simp only [AgreementRow.moved, Agreements.cancelStatus, hPlain] <;> decide

theorem statusStep_of_effect {r' : Option AgreementRow}
    (h : RowEffect w id o (some row) r') (hOk : w.RowOk id row) :
    ∃ row', r' = some row' ∧ StatusStep o.reconciles row.status row'.status := by
  cases h with
  | same => exact ⟨row, rfl, .inl rfl⟩
  | update hRun =>
    refine ⟨_, rfl, ?_⟩
    rcases RowUpdate.status_change hRun with hSame | hChange
    · exact .inl hSame
    · exact .inr (.inl hChange)
  | reconcile => exact ⟨_, rfl, statusStep_transition hOk _ _ _⟩
  | @batch items item _ hMem hId =>
    refine ⟨_, rfl, ?_⟩
    unfold Agreements.reconcileRow
    rw [Agreements.persistAudit_eq]
    exact statusStep_transition hOk _ _ _

section Runs

variable {config : Config} {now chainTime : Nat} {requests : Requests}
  {c c' : (allServices config).Config} {m : Concurrent.Move Choice Seed Outside}

def reconciles (c : (allServices config).Config) (m : Concurrent.Move Choice Seed Outside) : Bool :=
  ((allServices config).acts c m).any fun act => act.2.reconciles

theorem statusStep_of_next (hRun : (allServices config).Run (fresh now chainTime requests) c)
    (hNext : (allServices config).next c m = some c') (hRow : c.1.row id = some row) :
    ∃ row', c'.1.row id = some row' ∧ RowGrows row row' ∧
      StatusStep (reconciles c m) row.status row'.status := by
  have hAllowed := allowed_allServices c m
  obtain ⟨row', hRow', hGrows⟩ := (grows_of_step hRun ⟨m, hAllowed, hNext⟩).rows id row hRow
  refine ⟨row', hRow', hGrows, ?_⟩
  rcases step_of_run hRun hAllowed hNext with ⟨t, o, choice, r, hActs, -, -, hPerformed⟩ |
    ⟨-, hSame | ⟨e, hMove⟩⟩
  · have hEffect := hPerformed.rowEffect id
    rw [hRow] at hEffect
    obtain ⟨row1, hRow1, hStep⟩ :=
      statusStep_of_effect hEffect ((consistent_of_run hRun).rows id row hRow)
    obtain rfl := Option.some.inj (hRow'.symm.trans hRow1)
    simp only [reconciles, hActs, Option.any_some]
    exact hStep
  · rw [hSame, hRow] at hRow'
    rw [← Option.some.inj hRow']
    exact .inl rfl
  · rw [(untouched_of_outside hMove).sameRow] at hRow'
    rw [← Option.some.inj (hRow.symm.trans hRow')]
    exact .inl rfl

/-- Every status history follows the agreement state machine. -/
theorem status_history_follows_machine
    (hRun : (allServices config).Run (fresh now chainTime requests) c)
    (hNext : (allServices config).next c m = some c') (hRow : c.1.row id = some row) :
    ∃ row', c'.1.row id = some row' ∧ StatusStep (reconciles c m) row.status row'.status ∧
      (row.status ∈ [.unresponsive, .canceledByIndexer, .abandonedByIndexer] →
        row'.status = row.status) ∧
      (row.status = .cancelling → row'.status ≠ .acceptedOnChain) ∧
      (row.abandoned = true → row'.status ≠ .canceledByRequester) ∧
      (row.abandoned = false → row'.status ≠ .abandonedByIndexer) := by
  obtain ⟨row', hRow', hGrows, hStep⟩ := statusStep_of_next hRun hNext hRow
  have hAllowed := allowed_allServices c m
  have hOk := (consistent_of_run hRun).rows id row hRow
  have hOk' := (consistent_of_run (hRun.tail ⟨m, hAllowed, hNext⟩)).rows id row' hRow'
  refine ⟨row', hRow', hStep, fun hFinal => hStep.of_final ?_, fun hStatus => ?_, fun hMark => ?_,
    fun hPlain hEnded => ?_⟩
  · revert hFinal
    cases row.status <;> decide
  · rw [hStatus] at hStep
    exact hStep.ne_accepted
  · exact (hOk'.abandoned (hGrows.abandoned hMark)).2
  · rw [hEnded] at hStep
    rcases hStep.of_abandoned with hStatus | hStatus
    · rw [hOk.marked hStatus] at hPlain
      cases hPlain
    · have hPlain' := hGrows.unabandoned hPlain (by rw [hStatus]; rfl)
      rw [hOk'.marked hEnded] at hPlain'
      cases hPlain'

/-- The step of a proposal job that marks an agreement the indexer rejected. -/
theorem status_history_of_rejection : ∃ c c' : (allServices sampleConfig).Config,
    (allServices sampleConfig).Run (fresh 5 5 sampleRequests) c ∧
    (∃ row, c.1.row 10 = some row ∧ row.status = .created) ∧
    ∃ row', c'.1.row 10 = some row' ∧ row'.status = .rejected ∧
      StatusStep (reconciles c (.op 0 .ok)) .created row'.status := by
  obtain ⟨c, hRun, hEnd⟩ := exists_run sampleConfig (fresh 5 5 sampleRequests)
    (offerMoves 10 1 ++ [.start (.job (.sendIndexingAgreementProposal 10 1)),
      .op 0 (.rows [10]), .op 0 (.reply (.rejected "PRICE_TOO_LOW"))])
    (fun c => ((allServices sampleConfig).next c (.op 0 .ok)).any fun c' =>
      (c.1.row 10).any (·.status = .created) && (c'.1.row 10).any (·.status = .rejected))
    (by decide +kernel)
  simp only [Option.any_eq_true, Bool.and_eq_true, decide_eq_true_eq] at hEnd
  obtain ⟨c', hNext, ⟨row, hRow, hStatus⟩, row', hRow', hStatus'⟩ := hEnd
  obtain ⟨row1, hRow1, hStep, -⟩ := status_history_follows_machine hRun hNext hRow
  obtain rfl := Option.some.inj (hRow'.symm.trans hRow1)
  rw [hStatus] at hStep
  exact ⟨c, c', hRun, ⟨row, hRow, hStatus⟩, row', hRow', hStatus', hStep⟩

end Runs

end Dipper
