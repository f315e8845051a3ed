import Dipper.Consistency.Runs

/-! Accepts on the chain and their record: once the chain listener has dealt with a page that tells
when an agreement was accepted, the time is on the agreement's row or in a chain check. -/

namespace Dipper

open World Listener

variable {config : Config} {w w' : World} {id : IndexingAgreementId} {o : Op} {t : Tag}
  {choice : Choice} {x : AgreementStateSnapshot}

/-- What keeps an accept from going unrecorded.  A page tells the accept times as the subgraph has
them.  A row without its accept that is read for a page is not rejected when the pinned chain shows
the agreement ended, nor ended by the indexer or abandoned when it does not.  And a row that was
read as open for a page is still open when the page is written, or has its accept. -/
def RecordsAccepts (w : World) (_ : Tag) (o : Op) (choice : Choice) : Prop :=
  match o, choice with
  | .getChanged _ pinned, .page r => (w.pin pinned).pinned.graph.misread r = []
  | .select (.byIds ids), _ => ∀ id ∈ ids, ∀ row ∈ w.row id, row.acceptedAt = none →
      ¬ (row.status = .rejected ∧ (w.pinned.chain id).IsEnded ∨
        (row.status = .canceledByIndexer ∨ row.status = .abandonedByIndexer) ∧
          ¬ (w.pinned.chain id).IsEnded)
  | .applyReconciliationBatch _, _ => ∀ p ∈ w.pageListed, p.2.status ∈ acceptFrom →
      ∀ row ∈ w.row p.1, row.status ∈ acceptFrom ∨ row.acceptedAt.isSome = true ∨
        row.status = .unresponsive
  | _, _ => True

instance (w : World) (t : Tag) (o : Op) (choice : Choice) :
    Decidable (RecordsAccepts w t o choice) := by
  unfold RecordsAccepts
  split
  · infer_instance
  · exact List.decidableBAll _ _
  · exact List.decidableBAll _ _
  · infer_instance

namespace World

/-- The accept that the snapshot tells is on the agreement's row or in a chain check. -/
def AcceptKept (w : World) (x : AgreementStateSnapshot) : Prop :=
  w.AcceptStored x.agreementId ∨ ∃ accept : ChainAccept, accept.at' = x.acceptedAt ∧
    Job.cancelRejectedAgreementOnChain x.agreementId (some accept) ∈ w.jobs

theorem AcceptKept.mono (h : w.AcceptKept x) (hGrows : w.Grows w') : w'.AcceptKept x := by
  rcases h with hStored | ⟨accept, hAt, hJob⟩
  · exact .inl (hStored.mono hGrows)
  · exact .inr ⟨accept, hAt, hGrows.jobs _ hJob⟩

structure AcceptsKept (w : World) : Prop where
  told : w.misread = []
  listed : ∀ id, ¬ w.ClosedUnrecorded id
  applied : ∀ id ∈ w.acceptsApplied, w.AcceptStored id
  noted : ∀ since snapshots unapplied, Note.pageDone since snapshots unapplied ∈ w.journal →
    ∀ x ∈ snapshots, x.acceptedAt ≠ 0 → x.agreementId ∉ unapplied → w.AcceptKept x

theorem AcceptsKept.carried (h : w.AcceptsKept) (hw : w.Consistent) (hAt : x.acceptedAt ≠ 0)
    (hTime : (w.chain x.agreementId).acceptedAt = some x.acceptedAt)
    (hCheck : w.CheckQueued x.agreementId) : w.AcceptKept x := by
  obtain ⟨accept, hJob⟩ := hCheck
  obtain ⟨row, -, -, hCarries⟩ := hw.checks _ _ hJob
  cases accept with
  | some accept =>
    refine .inr ⟨accept, ?_, hJob⟩
    exact Option.some.inj (Eq.trans (Eq.symm hCarries) hTime)
  | none =>
    rcases hCarries with hZero | hUntold
    · have hSame : x.acceptedAt = 0 := Option.some.inj (hTime.symm.trans hZero)
      exact absurd hSame hAt
    · rw [h.told] at hUntold
      exact absurd hUntold List.not_mem_nil

theorem told_step {r : Res o} (hTold : w.misread = []) (hAllow : RecordsAccepts w t o choice)
    (hExec : w.exec o choice = some (r, w')) : w'.misread = [] := by
  rcases (exec_effect hExec).changes.answer with ⟨hEq, -⟩ | ⟨since, pinned, -, rfl, -, -⟩
  · exact hEq.trans hTold
  · rcases exec_getChanged_cases hExec with rfl | ⟨response, rfl, -, rfl⟩
    · exact hTold
    · change w.misread ++ (w.pin pinned).pinned.graph.misread response = []
      rw [hTold, show (w.pin pinned).pinned.graph.misread response = [] from hAllow]
      rfl

theorem listed_step {r : Res o} (hListed : ∀ id, ¬ w.ClosedUnrecorded id)
    (hAllow : RecordsAccepts w t o choice) (hExec : w.exec o choice = some (r, w'))
    (id : IndexingAgreementId) : ¬ w'.ClosedUnrecorded id := by
  rintro ⟨row, hMem, hNone, hMismatch⟩
  have hChanges := (exec_effect hExec).changes
  have hPinned : (∃ since pinned, o = .getChanged since pinned ∧ w'.pageListed = []) ∨
      w'.pinned = w.pinned := by
    rcases hChanges.pinned with hSame | ⟨since, rfl, -⟩
    · exact .inr hSame
    · rcases exec_getChanged_cases hExec with rfl | ⟨response, -, -, rfl⟩
      · exact .inr rfl
      · exact .inl ⟨since, none, rfl, rfl⟩
  rcases hPinned with ⟨-, -, -, hEmpty⟩ | hPinned
  · rw [hEmpty] at hMem
    exact absurd hMem List.not_mem_nil
  · rw [hPinned] at hMismatch
    rcases hChanges.pageListed with hSame | ⟨since, pinned, -, hEmpty⟩ | ⟨ids, listed, rfl, hLists,
      hEq⟩
    · rw [hSame] at hMem
      exact hListed id ⟨row, hMem, hNone, hMismatch⟩
    · rw [hEmpty] at hMem
      exact absurd hMem List.not_mem_nil
    · rw [hEq] at hMem
      obtain ⟨hIn, hRow⟩ := mem_listed.mp hMem
      obtain ⟨row', -, hSelects⟩ := hLists.selects hIn
      exact hAllow id (of_decide_eq_true hSelects) row hRow hNone hMismatch

theorem applied_step (hw : w.Consistent) {items : List ReconciliationItem}
    (hPerformed : Performed config t w (.applyReconciliationBatch items) w')
    (hAllow : RecordsAccepts w t (.applyReconciliationBatch items) choice)
    {agreements : Agreements} {outcomes : Outcomes}
    (hOk : w.agreements.applyReconciliationBatch w.now items = .ok (agreements, outcomes))
    (hRows : w'.agreements = agreements) {item : ReconciliationItem} (hItem : item ∈ items)
    (hApplies : item.applyAccept = true) : w'.AcceptStored item.agreementId := by
  have hItemOk := hPerformed.pre.2.2 item hItem
  have hAccepted := ((hw.pinned item.agreementId).trans (hw.indexed item.agreementId)).accepted
    (hItemOk.accept hApplies).1
  obtain ⟨row, hRow⟩ := hw.row_of_accepted hAccepted
  obtain ⟨read, hListed, hFrom⟩ := hItemOk.listed hApplies
  have hStored : row.acceptedAt.isSome = true ∨ row.status = .unresponsive →
      w'.AcceptStored item.agreementId := fun hDone =>
    AcceptStored.mono ⟨row, hRow, hDone⟩ (hPerformed.grows hw)
  rcases hAllow _ hListed hFrom row hRow with hOpen | hDone
  · have hRow' : w'.row item.agreementId =
        some (Agreements.reconcileRow w.now item row) :=
      World.row_of_batch hPerformed.pre.2.1 hOk hRows hItem hRow
    refine ⟨_, hRow', .inl (Agreements.recorded_reconcileRow hApplies hOpen ?_)⟩
    exact isSome_acceptedAt_of_made hItemOk.made hApplies
  · exact hStored hDone

theorem AcceptsKept.step {r : Res o} (h : w.AcceptsKept) (hw : w.Consistent)
    (hAllow : RecordsAccepts w t o choice) (hExec : w.exec o choice = some (r, w'))
    (hPerformed : Performed config t w o w') : w'.AcceptsKept where
  told := told_step h.told hAllow hExec
  listed := listed_step h.listed hAllow hExec
  applied id hMem := by
    have hOld : id ∈ w.acceptsApplied → w'.AcceptStored id := fun hOld =>
      (h.applied id hOld).mono (hPerformed.grows hw)
    rcases hPerformed.effect.changes.acceptsApplied with hEq | ⟨items, t, outcomes, rfl, hOk, hRows,
      hEq⟩
    · exact hOld (hEq ▸ hMem)
    · rw [hEq] at hMem
      rcases List.mem_append.mp hMem with hMem | hNew
      · exact hOld hMem
      · obtain ⟨item, hItem, rfl⟩ := List.mem_map.mp hNew
        obtain ⟨hItem, hApplies⟩ := List.mem_filter.mp hItem
        exact applied_step hw hPerformed hAllow hOk hRows hItem hApplies
  noted since snapshots unapplied hNote x hx hAt hDone := by
    have hGrows := hPerformed.grows hw
    have hOld : Note.pageDone since snapshots unapplied ∈ w.journal → w'.AcceptKept x :=
      fun hNote => (h.noted since snapshots unapplied hNote x hx hAt hDone).mono hGrows
    rcases hPerformed.effect.changes.journal with hEq | ⟨n, rfl, hEq⟩
    · exact hOld (hEq ▸ hNote)
    · rw [hEq] at hNote
      rcases List.mem_append.mp hNote with hNote | hNote
      · exact hOld hNote
      · obtain rfl := List.mem_singleton.mp hNote
        have hDealt := hPerformed.pre.2 x hx hDone
        refine AcceptKept.mono ?_ hGrows
        rcases hDealt.accept hAt with hStored | hCheck | hApplied | hClosed
        · exact .inl hStored
        · exact h.carried hw hAt (hDealt.time hAt) hCheck
        · exact .inl (h.applied _ hApplied)
        · exact absurd hClosed (h.listed _)

theorem AcceptsKept.outside {e : Outside} (h : w.AcceptsKept) (hw : w.Consistent)
    (hMove : e.move config w = some w') : w'.AcceptsKept := by
  have hUntouched := untouched_of_outside hMove
  have hGrows := (outside_keeps hw hMove).2
  refine ⟨hUntouched.misread.trans h.told, fun id => ?_, fun id hMem => ?_, ?_⟩
  · rw [ClosedUnrecorded, hUntouched.pageListed, hUntouched.pinned]
    exact h.listed id
  · rw [hUntouched.acceptsApplied] at hMem
    exact (h.applied id hMem).mono hGrows
  · intro since snapshots unapplied hNote x hx hAt hDone
    rw [hUntouched.journal] at hNote
    exact (h.noted since snapshots unapplied hNote x hx hAt hDone).mono hGrows

end World

section Runs

variable {now chainTime : Nat} {requests : Requests} {since : Cursor}
  {snapshots : List AgreementStateSnapshot} {unapplied : List IndexingAgreementId}

theorem acceptsKept_of_run {c : (services config RecordsAccepts).Config}
    (hRun : (services config RecordsAccepts).Run (fresh now chainTime requests) c) :
    c.1.AcceptsKept := by
  refine invariant_of_run ⟨rfl, fun id ⟨_, hMem, _⟩ => (by cases hMem),
    fun id hMem => (by cases hMem), fun _ _ _ hNote => (by cases hNote)⟩ ?_ ?_ hRun
  · intro w t o choice r w' hw h hAllow hExec hPerformed
    exact h.step hw hAllow hExec hPerformed
  · intro w w' e hw h hMove
    exact h.outside hw hMove

/-- Once a page that tells when an agreement was accepted has been dealt with, the agreement's row
has its accept or a chain check carries it, unless the indexer never answered. -/
theorem accept_recorded {c : (services config RecordsAccepts).Config}
    (hRun : (services config RecordsAccepts).Run (fresh now chainTime requests) c)
    (hNote : Note.pageDone since snapshots unapplied ∈ c.1.journal) (hx : x ∈ snapshots)
    (hAt : x.acceptedAt ≠ 0) (hDone : x.agreementId ∉ unapplied) :
    ∃ row, c.1.row x.agreementId = some row ∧ (row.status ≠ .unresponsive →
      row.acceptedAt.isSome = true ∨ ∃ accept : ChainAccept, accept.at' = x.acceptedAt ∧
        Job.cancelRejectedAgreementOnChain x.agreementId (some accept) ∈ c.1.jobs) := by
  rcases (acceptsKept_of_run hRun).noted since snapshots unapplied hNote x hx hAt hDone with
    ⟨row, hRow, hStored⟩ | ⟨accept, hTime, hJob⟩
  · exact ⟨row, hRow, fun hAnswered => .inl (hStored.resolve_right hAnswered)⟩
  · obtain ⟨row, hRow, -⟩ := (consistent_of_run hRun).checks _ _ hJob
    exact ⟨row, hRow, fun _ => .inr ⟨accept, hTime, hJob⟩⟩

theorem accept_recorded_on_row : ∃ c : (services sampleConfig RecordsAccepts).Config,
    (services sampleConfig RecordsAccepts).Run (fresh 5 5 sampleRequests) c ∧
    ∃ row, c.1.row 10 = some row ∧ (row.status ≠ .unresponsive →
      row.acceptedAt.isSome = true ∨ ∃ accept : ChainAccept, accept.at' = 5 ∧
        Job.cancelRejectedAgreementOnChain 10 (some accept) ∈ c.1.jobs) := by
  obtain ⟨c, hRun, hEnd⟩ := exists_run_of_allowed sampleConfig RecordsAccepts
    (fresh 5 5 sampleRequests) (offerMoves 10 1 ++ submitMoves 10 ++ acceptMoves ++ [.op 0 .ok])
    (fun c => Note.pageDone .genesis [sampleSnapshot 10 .accepted 3 5 0] [] ∈ c.1.journal)
    (by decide +kernel)
  refine ⟨c, hRun, ?_⟩
  exact accept_recorded (x := sampleSnapshot 10 .accepted 3 5 0) hRun (of_decide_eq_true hEnd)
    (List.mem_singleton.mpr rfl) nofun List.not_mem_nil

/-- The accept of agreement 10 lies deep enough below the head not to be read a second time. -/
def deepGraph : Subgraph := { acceptedGraph with head := 5 }

/-- A reassessment marks agreement 10 cancelling between the poll's read of its row and the write
of its page. -/
def cancelledMeanwhileMoves : Moves := offerMoves 10 1 ++ submitMoves 10 ++
  ([.env (.accept 10), .env (.index deepGraph), .start .poll,
     .op 0 (.page ⟨[acceptedEntity], 5, some 5⟩), .op 0 .ok, .op 0 (.rows [10]),
     .start (.job (.reassessIndexingRequest 1)), .op 1 .ok, .op 1 (.rows [10]), .op 1 (.rows []),
     .op 1 (.rows [10]), .op 1 .ok, .op 1 (.selected (.ok [])), .op 1 .ok, .op 1 .ok, .op 1 .ok,
     .op 1 (.order []), .op 1 .ok, .drop 1, .op 0 (.answer false), .op 0 .ok, .op 0 .ok, .op 0 .ok,
     .op 0 .ok, .op 0 .ok, .op 0 .ok, .op 0 (.rows []), .op 0 (.rows []), .op 0 (.rows []),
     .op 0 (.rows []), .op 0 (.rows []), .op 0 .ok] : Moves)

/-- The page's accept finds the row cancelling and is dropped.  The page counts as applied, the
cursor goes past it, and the accept is neither on the row nor in a chain check. -/
theorem accept_unrecorded : ∃ c : (allServices sampleConfig).Config,
    (allServices sampleConfig).Run (fresh 5 5 sampleRequests) c ∧
    Note.pageDone .genesis [sampleSnapshot 10 .accepted 3 5 0] [] ∈ c.1.journal ∧
    ¬ effectiveCursor sampleConfig.reorgBufferBlocks c.1.memory.cursor <
      (sampleSnapshot 10 .accepted 3 5 0).cursor ∧
    (∃ row, c.1.row 10 = some row ∧ row.status = .cancelling ∧ row.acceptedAt = none) ∧
    ¬ c.1.CheckQueued 10 := by
  obtain ⟨c, hRun, hEnd⟩ := exists_run sampleConfig (fresh 5 5 sampleRequests)
    cancelledMeanwhileMoves
    (fun c => Note.pageDone .genesis [sampleSnapshot 10 .accepted 3 5 0] [] ∈ c.1.journal &&
      !decide (effectiveCursor sampleConfig.reorgBufferBlocks c.1.memory.cursor <
        (sampleSnapshot 10 .accepted 3 5 0).cursor) &&
      (c.1.row 10).any (fun row => row.status = .cancelling && row.acceptedAt = none) &&
      c.1.jobs.all fun job => !job.checksChain)
    (by decide +kernel)
  simp only [Option.any_eq_true, Bool.and_eq_true, decide_eq_true_eq, List.all_eq_true,
    Bool.not_eq_true', decide_eq_false_iff_not] at hEnd
  obtain ⟨⟨⟨hNote, hPast⟩, hRow⟩, hJobs⟩ := hEnd
  refine ⟨c, hRun, hNote, hPast, hRow, ?_⟩
  rintro ⟨accept, hMem⟩
  cases hJobs _ hMem

end Runs

end Dipper
