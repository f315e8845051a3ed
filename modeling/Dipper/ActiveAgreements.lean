import Dipper.Consistency.Runs
import Dipper.Passes
import Dipper.Selection

/-! An indexer has at most one active agreement of a request, as long as no accept comes so late
that its agreement has expired: a pass offers to indexers without one, and nothing but such an
accept brings an agreement back. -/

namespace Dipper

open World

/-- No request has two active agreements with one indexer. -/
def World.OneActive (w : World) : Prop :=
  ∀ id id' row row', w.row id = some row → w.row id' = some row' →
    row.status.active = true → row'.status.active = true →
    row'.indexingRequestId = row.indexingRequestId → row'.indexerId = row.indexerId → id' = id

/-- A batch accepts no agreement that has expired. -/
def AcceptsInTime (w : World) (_ : Tag) (o : Op) (_ : Choice) : Prop :=
  match o with
  | .applyReconciliationBatch items => ∀ item ∈ items, item.applyAccept = true →
      ∀ row ∈ w.row item.agreementId, row.status ≠ .expired
  | _ => True

instance (w : World) (t : Tag) (o : Op) (choice : Choice) :
    Decidable (AcceptsInTime w t o choice) := by
  induction o using Op.casesOn with
  | applyReconciliationBatch items => exact List.decidableBAll _ _
  | _ => exact isTrue trivial

variable {config : Config} {w w' : World} {id : IndexingAgreementId} {row row' : AgreementRow}
  {t : Tag} {o : Op} {choice : Choice}

theorem passConditions_inTime : PassConditions True False (Consistently config AcceptsInTime) where
  active _ _ _ o _ _ _ hOp hExec hRegisters id row' hRow' hActive := by
    have hPerformed : Performed config _ _ o _ := ⟨exec_effect hExec, hOp.2.2⟩
    rcases hPerformed.active_origin hRow' hActive with hBefore | ⟨params, replaces, rfl, -⟩ |
      ⟨items, item, rfl, hItem, hId, hAccept, row, hRow, hExpired⟩
    · exact hBefore
    · cases hRegisters
    · exact absurd hExpired (hOp.1 item hItem hAccept row (hId ▸ hRow))
  pending := nofun
  picks := nofun

variable {now chainTime : Nat} {requests : Requests}

theorem World.OneActive.calm (h : w.OneActive) (hCalm : Calm True w w') : w'.OneActive := by
  intro id id' row row' hRow hRow' hActive hActive' hRequest hIndexer
  obtain ⟨row0, hRow0, hActive0⟩ := hCalm.active trivial id row hRow hActive
  obtain ⟨row0', hRow0', hActive0'⟩ := hCalm.active trivial id' row' hRow' hActive'
  obtain ⟨row1, hRow1, hGrows⟩ := hCalm.rows.origin hRow
  obtain ⟨row1', hRow1', hGrows'⟩ := hCalm.rows.origin hRow'
  obtain rfl := Option.some.inj (hRow0.symm.trans hRow1)
  obtain rfl := Option.some.inj (hRow0'.symm.trans hRow1')
  refine h id id' row0 row0' hRow0 hRow0' hActive0 hActive0' ?_ ?_
  · rw [← hGrows.request, ← hGrows'.request]
    exact hRequest
  · rw [← hGrows.indexer, ← hGrows'.indexer]
    exact hIndexer

/-- A new agreement with an indexer that has no active one of the request is its only one. -/
theorem World.OneActive.register {params : NewAgreementParams} {replaces : Option IndexingAgreementId}
    (h : w.OneActive) (hEffect : Effect w w' (.register params replaces))
    (hUnmatched : w.Unmatched params.requestId params.indexerId) : w'.OneActive := by
  intro id id' row row' hRow hRow' hActive hActive' hRequest hIndexer
  rcases Reassess.row_of_register hEffect id with hSame | ⟨rfl, -, hNew⟩
  · rcases Reassess.row_of_register hEffect id' with hSame' | ⟨rfl, -, hNew'⟩
    · exact h id id' row row' (hSame ▸ hRow) (hSame' ▸ hRow') hActive hActive' hRequest hIndexer
    · obtain rfl := Option.some.inj (hRow'.symm.trans hNew')
      rw [hUnmatched id row (hSame ▸ hRow) hRequest.symm hIndexer.symm] at hActive
      cases hActive
  · obtain rfl := Option.some.inj (hRow.symm.trans hNew)
    rcases Reassess.row_of_register hEffect id' with hSame' | ⟨rfl, -, -⟩
    · rw [hUnmatched id' row' (hSame' ▸ hRow') hRequest hIndexer] at hActive'
      cases hActive'
    · rfl

theorem oneActive_of_step {c c' : (services config (Consistently config AcceptsInTime)).Config}
    (hRun : (services config (Consistently config AcceptsInTime)).Run (fresh now chainTime requests) c)
    (hStep : (services config (Consistently config AcceptsInTime)).Step c c') (h : c.1.OneActive) :
    c'.1.OneActive := by
  obtain ⟨m, hAllowed, hNext⟩ := hStep
  rcases step_of_passes passConditions_inTime hRun hAllowed hNext with
    ⟨t, o, choice, r, -, hAllow, hExec, hPre⟩ | hSame | ⟨e, hMove⟩
  · cases hRegisters : o.registers with
    | false => exact h.calm (calm_of_exec passConditions_inTime hAllow hExec hRegisters)
    | true =>
      cases o with
      | register params replaces => exact h.register (exec_effect hExec) (hPre.2.2 trivial)
      | _ => cases hRegisters
  · rw [hSame]
    exact h
  · exact h.calm (calm_of_outside hMove)

theorem one_active_agreement {c : (services config AcceptsInTime).Config}
    (hRun : (services config AcceptsInTime).Run (fresh now chainTime requests) c) :
    c.1.OneActive := by
  have hTimely := run_consistently hRun
  clear hRun
  induction hTimely with
  | refl => exact fun _ _ _ _ hRow => (by cases hRow)
  | tail hPrefix hStep ih => exact oneActive_of_step hPrefix hStep ih

/-- The offer of agreement 10 lands and its hash is not recorded. -/
def unrecordedOfferMoves : Moves :=
  [.start (.job (.sendIndexingAgreementProposal 10 1)), .op 0 (.rows [10]),
    .op 0 (.reply .accepted), .op 0 .ok, .drop 0, .start (.job (.submitOffer 10 1)),
    .op 0 (.rows [10]), .op 0 (.mined (some "0xaa") true), .op 0 .fail, .op 0 (.rows [10]), .drop 0]

/-- Agreement 10 is marked expired though it was accepted, and once its indexer is no longer left out
a pass offers it agreement 20. -/
def offeredAgainMoves : Moves :=
  offerMoves 10 1 ++ unrecordedOfferMoves ++ failedWriteMoves ++
    ([.drop 0, .env (.clock 306)] : Moves) ++ offerMoves 20 1

/-- The row is of indexer 1's agreement under request 1, with that status. -/
def isOffer (status : IndexingAgreementStatus) (row : AgreementRow) : Bool :=
  row.status = status && row.indexingRequestId = 1 && row.indexerId = 1

theorem one_active_of_two_offers : ∃ c : (services sampleConfig AcceptsInTime).Config,
    (services sampleConfig AcceptsInTime).Run (fresh 5 5 sampleRequests) c ∧
    (c.1.row 10).any (isOffer .expired) = true ∧ (c.1.row 20).any (isOffer .created) = true ∧
    c.1.OneActive := by
  obtain ⟨c, hRun, hEnd⟩ := exists_run_of_allowed sampleConfig AcceptsInTime
    (fresh 5 5 sampleRequests) offeredAgainMoves
    (fun c => (c.1.row 10).any (isOffer .expired) && (c.1.row 20).any (isOffer .created))
    (by decide +kernel)
  obtain ⟨hOld, hNew⟩ := Bool.and_eq_true_iff.mp hEnd
  exact ⟨c, hRun, hOld, hNew, one_active_agreement hRun⟩

/-- IISA picks each indexer once, and none that declined or is on an empty denylist. -/
def PicksAvailable (w : World) (_ : Tag) (o : Op) (choice : Choice) : Prop :=
  match o, choice with
  | .selectIndexers request _, .selected (.ok picks) => w.PicksOfferable {} [] request picks
  | _, _ => True

instance (w : World) (t : Tag) (o : Op) (choice : Choice) :
    Decidable (PicksAvailable w t o choice) := by
  induction o using Op.casesOn with
  | selectIndexers request n =>
    induction choice using Choice.casesOn with
    | selected r =>
      induction r using Except.casesOn with
      | ok picks => exact instDecidableAnd
      | error e => exact isTrue trivial
    | _ => exact isTrue trivial
  | _ => exact isTrue trivial

/-- After agreement 20 has been offered in the place of agreement 10, a poll applies the accept of
agreement 10. -/
theorem two_active_agreements : ∃ c : (services sampleConfig PicksAvailable).Config,
    (services sampleConfig PicksAvailable).Run (fresh 5 5 sampleRequests) c ∧
    ¬ c.1.OneActive := by
  obtain ⟨c, hRun, hEnd⟩ := exists_run_of_allowed sampleConfig PicksAvailable
    (fresh 5 5 sampleRequests) (offeredAgainMoves ++ latePollMoves ++ [.op 0 .ok])
    (fun c => (c.1.row 10).any (isOffer .acceptedOnChain) && (c.1.row 20).any (isOffer .created))
    (by decide +kernel)
  simp only [isOffer, Bool.and_eq_true, Option.any_eq_true, decide_eq_true_eq] at hEnd
  obtain ⟨⟨row, hRow, ⟨hStatus, hRequest⟩, hIndexer⟩,
    ⟨row', hRow', ⟨hStatus', hRequest'⟩, hIndexer'⟩⟩ := hEnd
  refine ⟨c, hRun, fun h => ?_⟩
  have hSame := h 10 20 row row' hRow hRow' (by rw [hStatus]; rfl) (by rw [hStatus']; rfl)
    (hRequest'.trans hRequest.symm) (hIndexer'.trans hIndexer.symm)
  exact absurd hSame (by decide)

end Dipper
