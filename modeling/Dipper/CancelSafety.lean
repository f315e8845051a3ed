import Dipper.Consistency.Runs

/-! The cancel retry ends no agreement that is live on the chain or can become so again. -/

namespace Dipper

open World

variable {config : Config} {w w' : World} {id : IndexingAgreementId} {row row' : AgreementRow}
  {o : Op} {t : Tag}

/-- An agreement that is over for good does not read live: an offer that lapsed is past the
deadline it was made with. -/
theorem World.Dead.read_ne_live (h : w.Dead id) (hw : w.Consistent) :
    (w.chain id).read w.chainTime ≠ .live := by
  rcases h with hEnded | ⟨hNever, row, hRow, hDeadline⟩
  · cases hChain : w.chain id with
    | ended acceptedAt endedAt by' =>
      rw [OnChain.read_ended]
      cases by' <;> nofun
    | _ =>
      rw [hChain] at hEnded
      exact hEnded.elim
  · cases hChain : w.chain id with
    | absent =>
      rw [OnChain.read_absent]
      nofun
    | withdrawn =>
      rw [OnChain.read_withdrawn]
      nofun
    | offered deadline =>
      obtain ⟨row', hRow', hOffer, -⟩ := hw.offers id (by rw [hChain]; nofun)
      obtain rfl := Option.some.inj (hRow.symm.trans hRow')
      have hSame : deadline = row.terms.deadline := hOffer deadline hChain
      rw [OnChain.read_offered, if_pos (by omega)]
      nofun
    | accepted acceptedAt | ended acceptedAt endedAt by' =>
      rw [hChain] at hNever
      exact absurd trivial hNever

/-- Whoever but the chain listener moves a row out of `Cancelling`, its agreement is over. -/
theorem World.Performed.dead_of_left (h : Performed config t w o w') (hTag : t ≠ .chainListener)
    (hRow : w.row id = some row) (hStatus : row.status = .cancelling)
    (hRow' : w'.row id = some row') (hMoved : row'.status ≠ .cancelling) : w.Dead id := by
  have hPre := h.pre
  generalize hr : w.row id = r
  generalize hr' : w'.row id = r'
  have hEffect := h.rowEffect id
  rw [hr, hr'] at hEffect
  rw [hr] at hRow
  rw [hr'] at hRow'
  cases hEffect with
  | same =>
    obtain rfl := Option.some.inj (hRow.symm.trans hRow')
    exact absurd hStatus hMoved
  | update hRun =>
    cases hRow
    cases hRow'
    rcases RowUpdate.status_change hRun with hSame | hChange
    · exact absurd (hSame.trans hStatus) hMoved
    · exact dead_of_update (hPre _ hr) hRun (by rw [hStatus]; rfl) (hChange.ends hStatus)
  | reconcile => exact .inl hPre.2.2
  | batch => exact absurd hPre.1 hTag
  | register => cases hRow

section Runs

variable {now chainTime : Nat} {requests : Requests}
  {c c' c'' : (allServices config).Config} {m : Concurrent.Move Choice Seed Outside}

/-- Whenever a step of the cancel retry moves a row out of `Cancelling`, its agreement is not live
on the chain then, nor at any later time. -/
theorem retry_ends_no_live_agreement
    (hRun : (allServices config).Run (fresh now chainTime requests) c)
    (hNext : (allServices config).next c m = some c')
    (hRetry : (allServices config).acts c m = some (.cancelRetry, o))
    (hRow : c.1.row id = some row) (hStatus : row.status = .cancelling)
    (hRow' : c'.1.row id = some row') (hMoved : row'.status ≠ .cancelling) :
    (c.1.chain id).read c.1.chainTime ≠ .live ∧
      ∀ c'', (allServices config).Run c' c'' → (c''.1.chain id).read c''.1.chainTime ≠ .live := by
  have hAllowed := allowed_allServices c m
  have hDead : c.1.Dead id := by
    rcases step_of_run hRun hAllowed hNext with ⟨t, o', choice, r, hActs, -, -, hPerformed⟩ |
      ⟨hNone, -⟩
    · obtain ⟨rfl, rfl⟩ := Prod.mk.inj (Option.some.inj (hRetry.symm.trans hActs))
      exact hPerformed.dead_of_left nofun hRow hStatus hRow' hMoved
    · rw [hRetry] at hNone
      cases hNone
  refine ⟨hDead.read_ne_live (consistent_of_run hRun), fun c'' hLater => ?_⟩
  have hAll : (allServices config).Run c c'' := .head ⟨m, hAllowed, hNext⟩ hLater
  exact ((grows_of_run hRun hAll).dead hDead).read_ne_live (consistent_of_run (hRun.trans hAll))

/-- An offer that was never accepted, marked cancelling by a pass that no longer wants it and ended
by a retry after its deadline. -/
def lapsedOfferMoves : Moves := offerMoves 10 1 ++
  ([.start (.job (.reassessIndexingRequest 1)), .op 0 .ok, .op 0 (.rows [10]), .op 0 (.rows []),
     .op 0 (.rows [10]), .op 0 .ok, .op 0 (.selected (.ok [])), .op 0 .ok, .op 0 .ok, .op 0 .ok,
     .op 0 (.order []), .op 0 .ok, .op 0 .ok, .drop 0, .env (.clock 500), .env (.block 16),
     .start .cancelRetry, .op 0 (.rows [10]), .op 0 .ok, .op 0 .ok, .op 0 .ok, .op 0 .ok,
     .op 0 .ok] : Moves)

theorem retry_ends_lapsed_offer : ∃ c c' : (allServices sampleConfig).Config,
    (allServices sampleConfig).Run (fresh 5 5 sampleRequests) c ∧
    (∃ row, c.1.row 10 = some row ∧ row.status = .cancelling) ∧
    (∃ row', c'.1.row 10 = some row' ∧ row'.status = .canceledByRequester) ∧
    (c.1.chain 10).read c.1.chainTime ≠ .live ∧
    ∀ c'', (allServices sampleConfig).Run c' c'' →
      (c''.1.chain 10).read c''.1.chainTime ≠ .live := by
  obtain ⟨c, hRun, hEnd⟩ := exists_run sampleConfig (fresh 5 5 sampleRequests) lapsedOfferMoves
    (fun c => ((allServices sampleConfig).next c (.op 0 .ok)).any fun c' =>
      (allServices sampleConfig).acts c (.op 0 .ok) =
          some (.cancelRetry, .update 10 .markAsCanceledByRequester) &&
        (c.1.row 10).any (·.status = .cancelling) &&
        (c'.1.row 10).any (·.status = .canceledByRequester)) (by decide +kernel)
  simp only [Option.any_eq_true, Bool.and_eq_true, decide_eq_true_eq] at hEnd
  obtain ⟨c', hNext, ⟨hActs, row, hRow, hStatus⟩, row', hRow', hStatus'⟩ := hEnd
  refine ⟨c, c', hRun, ⟨row, hRow, hStatus⟩, ⟨row', hRow', hStatus'⟩, ?_⟩
  exact retry_ends_no_live_agreement hRun hNext hActs hRow hStatus hRow'
    (by rw [hStatus']; nofun)

end Runs

end Dipper
