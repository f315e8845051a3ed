import Dipper.Consistency.Runs
import Dipper.Passes

/-! An outgoing indexer serves on until its replacement has accepted, as long as IISA goes on
picking it: a pass ends only agreements that IISA left out, and the ones it pairs with a new
agreement are not among them. -/

namespace Dipper

open World

/-- IISA picks the indexer of every agreement that one on offer is to replace. -/
def KeepsOutgoing (w : World) (_ : Tag) (o : Op) (choice : Choice) : Prop :=
  match o, choice with
  | .selectIndexers request _, .selected (.ok picks) => w.KeepsReplaced request picks
  | _, _ => True

instance (w : World) (t : Tag) (o : Op) (choice : Choice) :
    Decidable (KeepsOutgoing w t o choice) := by
  induction o using Op.casesOn with
  | selectIndexers request n =>
    induction choice using Choice.casesOn with
    | selected r =>
      induction r using Except.casesOn with
      | ok picks =>
        -- Over the pending cancellations, not over all pairs of ids.
        exact List.decidableBAll _ _
      | error e => exact isTrue trivial
    | _ => exact isTrue trivial
  | _ => exact isTrue trivial

variable {config : Config}

theorem passConditions_outgoing : PassConditions False True (Consistently config KeepsOutgoing) where
  active := nofun
  pending _ _ _ _ _ hOp p hp :=
    Option.isSome_iff_exists.mp (hOp.2.1.replaced p (hOp.2.1.pending p hp)).1
  picks _ _ _ _ _ hOp := hOp.1

variable {now chainTime : Nat} {requests : Requests}

/-- When IISA goes on picking the indexers that are being replaced, no pass takes an accepted
agreement out of its status while one that is to replace it is still on offer. -/
theorem outgoing_serves_until_replaced {c c' : (services config KeepsOutgoing).Config}
    (hRun : (services config KeepsOutgoing).Run (fresh now chainTime requests) c)
    {m : Concurrent.Move Choice Seed Outside} {o : Op}
    (hAllowed : (services config KeepsOutgoing).Allowed c m)
    (hNext : (services config KeepsOutgoing).next c m = some c')
    (hPass : (services config KeepsOutgoing).acts c m = some (.reassess, o))
    {old : IndexingAgreementId} {row : AgreementRow} (hOld : c.1.row old = some row)
    (hServes : row.status = .acceptedOnChain)
    (hLeft : ∀ row', c'.1.row old = some row' → row'.status ≠ .acceptedOnChain)
    {new : IndexingAgreementId} (hPending : (new, old) ∈ c.1.pending) :
    ∃ row', c.1.row new = some row' ∧ row'.status ≠ .created := by
  have hAllowed' := allowed_consistently hRun hAllowed hNext
  rcases step_of_passes passConditions_outgoing (run_consistently hRun) hAllowed' hNext with
    ⟨t, o', choice, r, hActs, hAllow, hExec, hPre⟩ | hSame | ⟨e, hMove⟩
  · obtain ⟨rfl, rfl⟩ := Prod.mk.inj (Option.some.inj (hActs.symm.trans hPass))
    have hPerformed : Performed config .reassess c.1 o' c'.1 := ⟨exec_effect hExec, hAllow.2.2⟩
    have hEffect := hPerformed.rowEffect old
    rw [hOld] at hEffect
    cases hRow' : c'.1.row old with
    | none =>
      obtain ⟨row', hSome, -⟩ := hPerformed.rows hOld
      cases hRow'.symm.trans hSome
    | some row' =>
      rw [hRow'] at hEffect
      cases hEffect with
      | same => exact absurd hServes (hLeft row hRow')
      | update hUpdate => exact hPre rfl trivial new hPending
      | reconcile => exact absurd rfl hPre
      | batch => exact absurd rfl hPre
  · exact absurd hServes (hLeft row (by rw [hSame]; exact hOld))
  · refine absurd hServes (hLeft row ?_)
    rw [(untouched_of_outside hMove).sameRow]
    exact hOld

/-- Agreement 20 is to replace the accepted agreement 10 and its indexer rejects it; its request is
cancelled, and a pass is about to end agreement 10. -/
def rejectedReplacementMoves : Moves :=
  offerMoves 10 1 ++ submitMoves 10 ++ acceptMoves ++ announceMoves ++ replaceMoves ++
  ([.start (.job (.sendIndexingAgreementProposal 20 1)), .op 0 (.rows [20]),
     .op 0 (.reply (.rejected "CAPACITY_EXCEEDED")), .op 0 .ok,
     .env (.request 1 ⟨.canceled, "Qm", 1, 1, false⟩),
     .start (.job (.reassessIndexingRequest 1)), .op 1 .ok, .op 1 (.rows [10]), .op 1 (.rows []),
     .op 1 (.rows []), .op 1 .ok, .op 1 (.selected (.ok [])), .op 1 .ok, .op 1 .ok,
     .op 1 (.order [])] : Moves)

theorem outgoing_ended_after_rejection : ∃ c c' : (services sampleConfig KeepsOutgoing).Config,
    (services sampleConfig KeepsOutgoing).Run (fresh 5 5 sampleRequests) c ∧
    (∃ row, c.1.row 10 = some row ∧ row.status = .acceptedOnChain) ∧
    (∃ row, c'.1.row 10 = some row ∧ row.status = .cancelling) ∧ (20, 10) ∈ c.1.pending ∧
    ∃ row, c.1.row 20 = some row ∧ row.status ≠ .created := by
  obtain ⟨c, hRun, hEnd⟩ := exists_run_of_allowed sampleConfig KeepsOutgoing
    (fresh 5 5 sampleRequests) rejectedReplacementMoves
    (fun c => ((services sampleConfig KeepsOutgoing).next c (.op 1 .ok)).any fun c' =>
      (services sampleConfig KeepsOutgoing).acts c (.op 1 .ok) =
          some (.reassess, .update 10 .markAsCancelling) &&
        (c.1.row 10).any (·.status = .acceptedOnChain) &&
        (c'.1.row 10).any (·.status = .cancelling) && (20, 10) ∈ c.1.pending) (by decide +kernel)
  simp only [Option.any_eq_true, Bool.and_eq_true, decide_eq_true_eq] at hEnd
  obtain ⟨c', hNext, ⟨⟨hActs, row, hRow, hServes⟩, row', hRow', hStatus'⟩, hPending⟩ := hEnd
  refine ⟨c, c', hRun, ⟨row, hRow, hServes⟩, ⟨row', hRow', hStatus'⟩, hPending, ?_⟩
  refine outgoing_serves_until_replaced hRun (m := .op 1 .ok) ?_ hNext hActs hRow hServes ?_
    hPending
  · intro tag o k _
    cases o <;> trivial
  · intro row1 hRow1
    rw [Option.some.inj (hRow1.symm.trans hRow'), hStatus']
    intro hSame
    cases hSame

/-- IISA answers a pass with as many indexers as it asks for, each once. -/
def PicksGroup (_ : World) (_ : Tag) (o : Op) (choice : Choice) : Prop :=
  match o, choice with
  | .selectIndexers _ n, .selected (.ok picks) => (picks.map (·.id)).Nodup ∧ picks.length = n
  | _, _ => True

instance (w : World) (t : Tag) (o : Op) (choice : Choice) : Decidable (PicksGroup w t o choice) := by
  induction o using Op.casesOn with
  | selectIndexers request n =>
    induction choice using Choice.casesOn with
    | selected r =>
      induction r using Except.casesOn with
      | ok picks => exact instDecidableAnd
      | error e => exact isTrue trivial
    | _ => exact isTrue trivial
  | _ => exact isTrue trivial

/-- A pass pairs the accepted agreement 10 with agreement 20.  The next pass finds the indexer of
agreement 20 in the group already, so agreement 10 has nothing to be paired with, and ends it while
agreement 20 is still on offer. -/
theorem outgoing_ended_while_replacement_offered :
    ∃ c c' : (services sampleConfig PicksGroup).Config,
    (services sampleConfig PicksGroup).Run (fresh 5 5 sampleRequests) c ∧
    (services sampleConfig PicksGroup).Step c c' ∧
    c.1.requests.lookup 1 = sampleRequests.lookup 1 ∧
    (∃ row, c.1.row 10 = some row ∧ row.status = .acceptedOnChain) ∧
    (∃ row, c'.1.row 10 = some row ∧ row.status = .cancelling) ∧ (20, 10) ∈ c.1.pending ∧
    ∃ row, c.1.row 20 = some row ∧ row.status = .created := by
  let next : Moves :=
    [.start (.job (.reassessIndexingRequest 1)), .op 0 .ok, .op 0 (.rows [10, 20]),
      .op 0 (.rows []), .op 0 (.rows [20]), .op 0 .ok, .op 0 (.selected (.ok [⟨2, true⟩])),
      .op 0 .ok, .op 0 .ok, .op 0 (.order [])]
  obtain ⟨c, hRun, hEnd⟩ := exists_run_of_allowed sampleConfig PicksGroup
    (fresh 5 5 sampleRequests)
    (offerMoves 10 1 ++ submitMoves 10 ++ acceptMoves ++ announceMoves ++ replaceMoves ++ next)
    (fun c => ((services sampleConfig PicksGroup).next c (.op 0 .ok)).any fun c' =>
      c.1.requests.lookup 1 = sampleRequests.lookup 1 &&
        (c.1.row 10).any (·.status = .acceptedOnChain) &&
        (c'.1.row 10).any (·.status = .cancelling) && (20, 10) ∈ c.1.pending &&
        (c.1.row 20).any (·.status = .created)) (by decide +kernel)
  simp only [Option.any_eq_true, Bool.and_eq_true, decide_eq_true_eq] at hEnd
  obtain ⟨c', hNext, ⟨⟨⟨hRequest, hOld⟩, hOld'⟩, hPending⟩, hNew⟩ := hEnd
  refine ⟨c, c', hRun, ⟨.op 0 .ok, fun tag o k _ => ?_, hNext⟩, hRequest, hOld, hOld', hPending,
    hNew⟩
  cases o <;> trivial

end Dipper
