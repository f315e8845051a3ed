import Dipper.Consistency.Runs

/-! What the `terminated` events tell.  A row is listed, its event sent and the row stamped in
steps of their own, so the event tells the row's end only if the end did not change between the
listing and the stamp, and no later write changes an end that was told without clearing the
stamp. -/

namespace Dipper

open World Listener

variable {config : Config} {w w' : World} {id : IndexingAgreementId} {row row' : AgreementRow}
  {o : Op} {t : Tag} {choice : Choice}

/-- The row ended as the other did. -/
def AgreementRow.SameEnd (row listed : AgreementRow) : Prop :=
  row.status = listed.status ∧ row.updatedAt = listed.updatedAt ∧
    row.canceledAt = listed.canceledAt ∧ row.canceledBy = listed.canceledBy ∧
    row.canceledTx = listed.canceledTx

instance (row listed : AgreementRow) : Decidable (row.SameEnd listed) := by
  unfold AgreementRow.SameEnd
  infer_instance

/-- An end recorded over one that was told without its transaction replaces it: it is not before
the accept, and names a transaction. -/
def ReplacesTold (row : AgreementRow) (canceledAt : Nat) (canceledTx : Option TxHash) : Prop :=
  row.terminatedEventEmittedAt.isSome = true → row.canceledTx = none →
    canceledTx.isSome = true ∧ row.acceptedAt.any fun accepted => accepted ≤ asI64 canceledAt

instance (row : AgreementRow) (canceledAt : Nat) (canceledTx : Option TxHash) :
    Decidable (ReplacesTold row canceledAt canceledTx) := by
  unfold ReplacesTold
  infer_instance

def KeepsToldEnd (w : World) (id : IndexingAgreementId) (row : AgreementRow) : RowUpdate → Prop
  | .markTerminatedEventEmitted => ∀ p ∈ w.terminatedListed, p.1 = id → row.SameEnd p.2
  | .recordCancelAudit canceledAt _ canceledTx
  | .recordAcceptAndCancelAudit _ _ canceledAt _ canceledTx =>
    ReplacesTold row canceledAt canceledTx
  | .reopenCancel false => row.terminatedEventEmittedAt = none
  | _ => True

instance (w : World) (id : IndexingAgreementId) (row : AgreementRow) (u : RowUpdate) :
    Decidable (KeepsToldEnd w id row u) := by
  unfold KeepsToldEnd
  split <;> infer_instance

/-- The ends that were told stay as they were told. -/
def KeepsToldEnds (w : World) (_ : Tag) (o : Op) (_ : Choice) : Prop :=
  match o with
  | .update id u => (w.row id).elim True fun row => KeepsToldEnd w id row u
  | _ => True

instance (w : World) (t : Tag) (o : Op) (choice : Choice) :
    Decidable (KeepsToldEnds w t o choice) := by
  unfold KeepsToldEnds
  split
  · unfold Option.elim
    split <;> infer_instance
  · infer_instance

/-- An end with its transaction has its time and its party. -/
def AgreementRow.EndWhole (row : AgreementRow) : Prop :=
  row.canceledTx.isSome = true → row.canceledAt.isSome = true ∧ row.canceledBy.isSome = true

/-- The end of a row is whole or lacks its transaction, and a row stamped terminated has ended as
the last event sent for it tells. -/
structure EndTold (config : Config) (w : World) (id : IndexingAgreementId) (row : AgreementRow) :
    Prop where
  whole : row.EndWhole
  told : row.terminatedEventEmittedAt.isSome = true → row.status.isTerminalCancel = true ∧
    ∃ remaining, w.lastTerminated id = some (terminatedEvent config id row remaining)

namespace EndTold

theorem of_open (h : EndTold config w id row) (hOpen : row.status.isTerminalCancel = false)
    (hAt : row'.canceledAt = row.canceledAt) (hBy : row'.canceledBy = row.canceledBy)
    (hTx : row'.canceledTx = row.canceledTx)
    (hStamp : row'.terminatedEventEmittedAt = row.terminatedEventEmittedAt) :
    EndTold config w id row' where
  whole := by
    rw [AgreementRow.EndWhole, hAt, hBy, hTx]
    exact h.whole
  told hStamped := by
    rw [hStamp] at hStamped
    rw [(h.told hStamped).1] at hOpen
    cases hOpen

theorem of_same (h : EndTold config w id row) (hStatus : row'.status = row.status)
    (hIndexer : row'.indexerId = row.indexerId) (hUpdated : row'.updatedAt = row.updatedAt)
    (hAt : row'.canceledAt = row.canceledAt) (hBy : row'.canceledBy = row.canceledBy)
    (hTx : row'.canceledTx = row.canceledTx)
    (hStamp : row'.terminatedEventEmittedAt = row.terminatedEventEmittedAt) :
    EndTold config w id row' where
  whole := by
    rw [AgreementRow.EndWhole, hAt, hBy, hTx]
    exact h.whole
  told hStamped := by
    rw [hStamp] at hStamped
    simp only [terminatedEvent, hStatus, hIndexer, hUpdated, hAt, hBy, hTx]
    exact h.told hStamped

theorem of_unstamped (h : EndTold config w id row) (hNone : row'.terminatedEventEmittedAt = none)
    (hAt : row'.canceledAt = row.canceledAt) (hBy : row'.canceledBy = row.canceledBy)
    (hTx : row'.canceledTx = row.canceledTx) : EndTold config w id row' where
  whole := by
    rw [AgreementRow.EndWhole, hAt, hBy, hTx]
    exact h.whole
  told hStamped := by
    rw [hNone] at hStamped
    cases hStamped

/-- A record of an end replaces the end on record and clears the stamp, or changes nothing of an
end that was told. -/
theorem writeEnd {replace : Bool} {canceledAt : Int} {canceledBy : String}
    {canceledTx : Option String} (h : EndTold config w id row)
    (hReplace : row.terminatedEventEmittedAt.isSome = true → row.canceledTx = none →
      replace = true) :
    EndTold config w id (row.writeEnd replace canceledAt canceledBy canceledTx) := by
  unfold AgreementRow.writeEnd
  split
  · exact ⟨fun _ => ⟨rfl, rfl⟩, nofun⟩
  · rename_i hKeep
    refine ⟨fun _ => ⟨?_, ?_⟩, fun hStamped => ?_⟩
    · cases row.canceledAt <;> rfl
    · cases row.canceledBy <;> rfl
    · cases hTx : row.canceledTx with
      | none => exact absurd (hReplace hStamped hTx) hKeep
      | some tx =>
        obtain ⟨hAt, hBy⟩ := h.whole (by rw [hTx]; rfl)
        obtain ⟨at', hAt⟩ := Option.isSome_iff_exists.mp hAt
        obtain ⟨by', hBy⟩ := Option.isSome_iff_exists.mp hBy
        simp only [hAt, hBy, Option.some_or]
        have hTold := h.told hStamped
        simp only [terminatedEvent, hAt, hBy, hTx] at hTold
        exact hTold

end EndTold

theorem replaceEnd_of_replacesTold {canceledAt : Nat} {canceledTx : Option TxHash}
    (accepted : Option Int) (h : ReplacesTold row canceledAt canceledTx)
    (hStamped : row.terminatedEventEmittedAt.isSome = true) (hTx : row.canceledTx = none) :
    replaceEnd row (row.acceptedAt.or accepted) (asI64 canceledAt) canceledTx = true := by
  obtain ⟨hNew, hAt⟩ := h hStamped hTx
  obtain ⟨at', hAt, hLe⟩ := (Option.any_eq_true _ _).mp hAt
  rw [replaceEnd, hAt, Option.some_or, Option.any_some, hLe, hTx, hNew]
  simp

theorem EndTold.stamped {listed : AgreementRow} {remaining : Int} {now : Nat}
    (h : EndTold config w id row) (hSame : row.SameEnd listed)
    (hTerminal : listed.status.isTerminalCancel = true)
    (hIndexer : row.indexerId = listed.indexerId)
    (hLast : w.lastTerminated id = some (terminatedEvent config id listed remaining)) :
    EndTold config w id { row with terminatedEventEmittedAt := some now } := by
  obtain ⟨hStatus, hUpdated, hAt, hBy, hTx⟩ := hSame
  refine ⟨h.whole, fun _ => ⟨?_, remaining, ?_⟩⟩
  · rw [hStatus]
    exact hTerminal
  · rw [hLast, terminatedEvent, terminatedEvent, hIndexer, hUpdated, hAt, hBy, hTx]

/-- The rows listed by the last terminated sweep had ended. -/
def World.ListedEnds (w : World) : Prop :=
  ∀ p ∈ w.terminatedListed, p.2.status.isTerminalCancel = true ∧
    ∃ row, w.row p.1 = some row ∧ row.indexerId = p.2.indexerId

theorem EndTold.update {u : RowUpdate} {now : Nat} (h : EndTold config w id row)
    (hListed : w.ListedEnds) (hRow : w.row id = some row) (hPre : UpdatePre config t w id row u)
    (hKeeps : KeepsToldEnd w id row u) (hRun : u.run now row = some row') :
    EndTold config w id row' := by
  have hOpen : ∀ {allowedFrom : List IndexingAgreementStatus}, row.status ∈ allowedFrom →
      (∀ s ∈ allowedFrom, s.isTerminalCancel = false) → row.status.isTerminalCancel = false :=
    fun hMem hAll => hAll _ hMem
  cases u with
  | markAsUnresponsive | markAsCanceledByRequester | markAsAbandonedByIndexer | markAsCancelling
  | markAsExpired =>
    obtain ⟨hFrom, rfl⟩ := setStatusFrom_eq_some.mp hRun
    exact h.of_open (hOpen hFrom (by decide)) rfl rfl rfl rfl
  | markAsAbandoning | markAsRejected reason =>
    obtain ⟨r, hSet, rfl⟩ := Option.map_eq_some_iff.mp hRun
    obtain ⟨hFrom, rfl⟩ := setStatusFrom_eq_some.mp hSet
    exact h.of_open (hOpen hFrom (by decide)) rfl rfl rfl rfl
  | reopenCancel seenLive =>
    obtain ⟨r, hSet, rfl⟩ := Option.map_eq_some_iff.mp hRun
    obtain ⟨-, rfl⟩ := setStatusFrom_eq_some.mp hSet
    cases seenLive with
    | true => exact ⟨nofun, nofun⟩
    | false => exact h.of_unstamped hKeeps rfl rfl rfl
  | updateOfferTxHash txHash =>
    simp only [RowUpdate.run, Option.ite_none_right_eq_some, Option.some.injEq] at hRun
    obtain ⟨hFrom, rfl⟩ := hRun
    exact h.of_open (hOpen hFrom (by decide)) rfl rfl rfl rfl
  | recordCancelCheck failedAttempts ended =>
    simp only [RowUpdate.run, Option.ite_none_right_eq_some, Option.some.injEq] at hRun
    obtain ⟨hStatus, rfl⟩ := hRun
    exact h.of_open (by rw [hStatus]; rfl) rfl rfl rfl rfl
  | markAcceptedEventEmitted | markExpiredEventEmitted | recordAcceptedAudit acceptedAt acceptedTx
  | markReplacementQueued =>
    obtain rfl := Option.some.inj hRun
    exact h.of_same rfl rfl rfl rfl rfl rfl rfl
  | markTerminatedEventEmitted =>
    obtain rfl := Option.some.inj hRun
    obtain ⟨-, listed, remaining, hMem, hLast⟩ := hPre
    obtain ⟨hTerminal, row1, hRow1, hIndexer⟩ := hListed _ hMem
    obtain rfl := Option.some.inj (hRow.symm.trans hRow1)
    exact h.stamped (hKeeps _ hMem rfl) hTerminal hIndexer hLast
  | recordCancelAudit canceledAt canceledBy canceledTx =>
    obtain rfl := Option.some.inj hRun
    refine h.writeEnd fun hStamped hTx => ?_
    have hReplace := replaceEnd_of_replacesTold none hKeeps hStamped hTx
    rwa [Option.or_none] at hReplace
  | recordAcceptAndCancelAudit acceptedAt acceptedTx canceledAt canceledBy canceledTx =>
    obtain rfl := Option.some.inj hRun
    exact (h.writeEnd fun hStamped hTx => replaceEnd_of_replacesTold _ hKeeps hStamped hTx).of_same
      rfl rfl rfl rfl rfl rfl rfl

theorem EndTold.reconcile {now : Nat} {applyAccept : Bool} {cancel : Option CancelKind}
    (h : EndTold config w id row) :
    EndTold config w id (Agreements.transition now applyAccept cancel row).1 := by
  cases hTerminal : row.status.isTerminalCancel with
  | true =>
    rw [Agreements.transition_of_terminal hTerminal]
    exact h
  | false =>
    rcases Agreements.transition_cases now applyAccept cancel row with hT | ⟨-, -, -, hT⟩ |
      ⟨kind, -, -, hT⟩ | ⟨kind, -, -, -, hT⟩ <;> rw [hT] <;>
      exact h.of_open hTerminal rfl rfl rfl rfl

/-- The audit of an item made of a snapshot records an end whole or not at all. -/
theorem endWhole_persistAudit {outcome : ReconciliationOutcome} {x : AgreementStateSnapshot}
    {a : IndexingAgreement} (h : row.EndWhole) :
    (Agreements.persistAudit outcome (reconciliationItem x a).audit row).EndWhole := by
  have hCancel : ∀ r : AgreementRow, r.EndWhole →
      (Agreements.persistCancelAudit (reconciliationItem x a).audit r).EndWhole := by
    intro r hr
    unfold Agreements.persistCancelAudit
    split
    · exact hr
    · cases hKind : cancelKind x a with
      | none => simpa [AgreementRow.EndWhole, reconciliationItem, hKind] using hr
      | some kind => simp [AgreementRow.EndWhole, reconciliationItem, hKind]
  have hAccept : (Agreements.persistAcceptAudit (reconciliationItem x a).audit row).EndWhole := by
    unfold Agreements.persistAcceptAudit
    split <;> exact h
  unfold Agreements.persistAudit
  dsimp only
  split <;> split
  · exact hCancel _ hAccept
  · exact hCancel _ h
  · exact hAccept
  · exact h

theorem EndTold.batch {now : Nat} {item : ReconciliationItem} (h : EndTold config w id row)
    (hItem : ∃ x a, item = reconciliationItem x a) :
    EndTold config w id (Agreements.reconcileRow now item row) := by
  cases hTerminal : row.status.isTerminalCancel with
  | true =>
    rw [Agreements.reconcileRow_of_terminal hTerminal]
    exact h
  | false =>
    obtain ⟨x, a, rfl⟩ := hItem
    refine ⟨endWhole_persistAudit h.reconcile.whole, fun hStamped => ?_⟩
    rw [(Agreements.reconcileRow_stamps ..).2] at hStamped
    rw [(h.told hStamped).1] at hTerminal
    cases hTerminal

/-- Every row's end is told as it is. -/
structure World.EndsTold (config : Config) (w : World) : Prop where
  rows : ∀ id row, w.row id = some row → EndTold config w id row
  listed : w.ListedEnds

namespace World.EndsTold

theorem lastTerminated_kept (hPerformed : Performed config t w o w')
    (hRow' : w'.row id = some row') (hStamped : row'.terminatedEventEmittedAt.isSome = true) :
    w'.lastTerminated id = w.lastTerminated id := by
  rcases hPerformed.effect.changes.events with hEq | ⟨event, rfl, hEq⟩
  · rw [lastTerminated, hEq, lastTerminated]
  · rw [lastTerminated_append hEq, if_neg]
    intro hId
    have hRow : w.row id = some row' := by
      rcases hPerformed.effect with rfl | rfl <;> exact hRow'
    cases event with
    | terminated id' =>
      obtain rfl := Option.some.inj hId
      rw [hPerformed.pre.2.2 row' hRow] at hStamped
      cases hStamped
    | _ => cases hId

/-- What an operation leaves of a row tells its end as the events before it did. -/
theorem row_step (h : w.EndsTold config) (hPerformed : Performed config t w o w')
    (hKeeps : KeepsToldEnds w t o choice) (hRow' : w'.row id = some row') :
    EndTold config w id row' := by
  have hPre := hPerformed.pre
  have hEffect := hPerformed.rowEffect id
  rw [hRow'] at hEffect
  cases hRow : w.row id <;> rw [hRow] at hEffect
  · cases hEffect with
    | register => exact ⟨nofun, nofun⟩
  · rename_i row
    have hRowTold := h.rows id row hRow
    cases hEffect with
    | same => exact hRowTold
    | update hRun =>
      simp only [KeepsToldEnds, hRow, Option.elim_some] at hKeeps
      exact hRowTold.update h.listed hRow (hPre row hRow) hKeeps hRun
    | reconcile => exact hRowTold.reconcile
    | batch hItem _ =>
      obtain ⟨-, -, hItems⟩ := hPre
      exact hRowTold.batch (hItems _ hItem).made

theorem listed_step (h : w.EndsTold config) (hPerformed : Performed config t w o w') :
    w'.ListedEnds := by
  intro p hp
  have hKeep : ∀ row, w.row p.1 = some row → row.indexerId = p.2.indexerId →
      ∃ row', w'.row p.1 = some row' ∧ row'.indexerId = p.2.indexerId := by
    intro row hRow hIndexer
    obtain ⟨row', hRow', hGrows⟩ := hPerformed.rows hRow
    exact ⟨row', hRow', hGrows.indexer.trans hIndexer⟩
  rcases hPerformed.effect.changes.terminatedListed with hEq | ⟨limit, ids, rfl, hLists, hEq⟩ <;>
    rw [hEq] at hp
  · obtain ⟨hTerminal, row, hRow, hIndexer⟩ := h.listed p hp
    exact ⟨hTerminal, hKeep row hRow hIndexer⟩
  · obtain ⟨hId, hRow⟩ := mem_listed.mp hp
    obtain ⟨row, hLookup, hSelects⟩ := hLists.selects hId
    obtain rfl := Option.some.inj (hRow.symm.trans hLookup)
    simp only [AgreementQuery.selects, Bool.and_eq_true] at hSelects
    exact ⟨hSelects.1.1.1, hKeep _ hRow rfl⟩

theorem step (h : w.EndsTold config) (hPerformed : Performed config t w o w')
    (hKeeps : KeepsToldEnds w t o choice) : w'.EndsTold config where
  rows id row' hRow' := by
    have hTold := h.row_step hPerformed hKeeps hRow'
    refine ⟨hTold.whole, fun hStamped => ?_⟩
    rw [lastTerminated_kept hPerformed hRow' hStamped]
    exact hTold.told hStamped
  listed := h.listed_step hPerformed

theorem untouched (h : w.EndsTold config) (hSame : Untouched w w') : w'.EndsTold config where
  rows id row hRow := by
    rw [hSame.sameRow] at hRow
    have hTold := h.rows id row hRow
    refine ⟨hTold.whole, ?_⟩
    rw [lastTerminated, hSame.events]
    exact hTold.told
  listed p hp := by
    rw [hSame.terminatedListed] at hp
    rw [hSame.sameRow]
    exact h.listed p hp

end World.EndsTold

/-- When what was told stays as it was told, every row stamped terminated is one that a cancel has
ended, and the last `terminated` event sent for it tells its end as it stands. -/
theorem terminated_event_tells_end {now chainTime : Nat} {requests : Requests}
    {c : (services config KeepsToldEnds).Config}
    (hRun : (services config KeepsToldEnds).Run (fresh now chainTime requests) c)
    (hRow : c.1.row id = some row) (hStamped : row.terminatedEventEmittedAt.isSome = true) :
    row.status.isTerminalCancel = true ∧
      ∃ remaining, c.1.lastTerminated id = some (terminatedEvent config id row remaining) := by
  have hTold : c.1.EndsTold config := by
    have hFresh : (World.fresh now chainTime requests).EndsTold config :=
      ⟨fun _ _ hRow => (by cases hRow), fun _ hp => absurd hp List.not_mem_nil⟩
    refine invariant_of_run hFresh ?_ ?_ hRun
    · intro w t o choice r w' _ h hKeeps _ hPerformed
      exact h.step hPerformed hKeeps
    · intro w w' e _ h hMove
      exact h.untouched (untouched_of_outside hMove)
  exact (hTold.rows id row hRow).told hStamped

theorem terminated_event_tells_indexer_end : ∃ c : (services sampleConfig KeepsToldEnds).Config,
    (services sampleConfig KeepsToldEnds).Run (fresh 5 5 sampleRequests) c ∧
    ∃ row, c.1.row 10 = some row ∧ row.status.isTerminalCancel = true ∧
      row.terminatedEventEmittedAt.isSome = true ∧
      ∃ remaining, c.1.lastTerminated 10 = some (terminatedEvent sampleConfig 10 row remaining) := by
  obtain ⟨c, hRun, hEnd⟩ := exists_run_of_allowed sampleConfig KeepsToldEnds
    (fresh 5 5 sampleRequests)
    (endedMoves ++ [.op 0 (.rows [10]), .op 0 .ok, .op 0 .ok, .op 0 (.rows [10]), .op 0 (.rows []),
      .op 0 .ok, .op 0 .ok])
    (fun c => (c.1.row 10).any fun row => row.terminatedEventEmittedAt.isSome) (by decide +kernel)
  obtain ⟨row, hRow, hStamped⟩ := (Option.any_eq_true _ _).mp hEnd
  obtain ⟨hTerminal, hTold⟩ := terminated_event_tells_end hRun hRow hStamped
  exact ⟨c, hRun, row, hRow, hTerminal, hStamped, hTold⟩

/-- A second run of the proposal job rejects agreement 10 after its offer was made; the offer is
accepted, a poll queues a chain check, and the check reads the agreement live. -/
def checkedMoves : Moves :=
  offerMoves 10 1 ++ submitMoves 10 ++
  ([.start (.job (.sendIndexingAgreementProposal 10 1)), .op 0 (.rows [10]),
     .op 0 (.reply (.rejected "PRICE_TOO_LOW")), .op 0 .ok, .drop 0, .env (.accept 10),
     .env (.index acceptedGraph), .start .poll, .op 0 (.page ⟨[acceptedEntity], 3, some 5⟩),
     .op 0 .ok, .op 0 (.rows [10]), .op 0 (.answer false), .op 0 .ok, .op 0 .ok, .op 0 .ok,
     .op 0 .ok, .op 0 .ok, .op 0 .ok, .op 0 (.rows []), .op 0 (.rows []), .op 0 (.rows []),
     .op 0 (.rows []), .op 0 (.rows []), .op 0 .ok, .drop 0,
     .start (.job (.cancelRejectedAgreementOnChain 10 (some ⟨5, "0xbb"⟩))), .op 0 (.rows [10]),
     .op 0 .ok] : Moves)

def payerEndGraph : Subgraph where
  rows := [sampleSnapshot 10 .canceledByPayer 4 5 5]
  head := 4
  headTimestamp := some 5
  sorted := by decide
  unique := by decide

/-- A poll up to the first write of its page, which shows the end by the payer. -/
def payerEndPollMoves : Moves :=
  [.start .poll, .op 1 (.page ⟨[sampleEntity "0x0000000000000000000000000000000a"
      "CanceledByPayer" "4" "5" "5"], 4, some 5⟩), .op 1 .ok, .op 1 (.rows [10]),
    .op 1 (.answer false), .op 1 .ok]

/-- The agreement then ends, and polls record the end and announce it; the check, which read the
agreement live, reopens the row and clears its end between the event and the stamp.  Once a cancel
retry has marked the row ended again, it stands announced with an end that no event told. -/
theorem terminated_event_tells_other_end : ∃ c : (allServices sampleConfig).Config,
    (allServices sampleConfig).Run (fresh 5 5 sampleRequests) c ∧
    ∃ row, c.1.row 10 = some row ∧ row.status.isTerminalCancel = true ∧
      row.terminatedEventEmittedAt.isSome = true ∧
      ∀ remaining, c.1.lastTerminated 10 ≠ some (terminatedEvent sampleConfig 10 row remaining) := by
  let recorded : Moves :=
    [.op 1 .ok, .op 1 .ok, .op 1 .ok, .op 1 .ok, .op 1 .ok, .op 1 (.rows []), .op 1 (.rows []),
      .op 1 (.rows []), .op 1 .ok, .drop 1]
  let reopened : Moves :=
    [.op 1 .ok, .op 1 .ok, .op 1 .ok, .op 1 .ok, .op 1 (.rows [10]), .op 1 .ok, .op 1 .ok,
      .op 1 (.rows [10]), .op 1 (.rows []), .op 1 .ok, .op 0 .ok, .op 1 .ok, .drop 1, .drop 0]
  let retried : Moves :=
    [.start .cancelRetry, .op 0 (.rows [10]), .op 0 .ok, .op 0 .ok, .op 0 .ok, .op 0 .ok,
      .op 0 .ok, .drop 0, .env (.clock 4000), .start .cancelRetry, .op 0 (.rows [10]), .op 0 .ok,
      .op 0 .ok, .op 0 .ok, .op 0 .ok, .op 0 .ok]
  obtain ⟨c, hRun, hEnd⟩ := exists_run sampleConfig (fresh 5 5 sampleRequests)
    (checkedMoves ++ [.env (.finish 10 .payer), .env (.index payerEndGraph)] ++ payerEndPollMoves ++
      recorded ++ payerEndPollMoves ++ reopened ++ retried)
    (fun c => (c.1.row 10).any (fun row => row.status = .canceledByRequester &&
        row.terminatedEventEmittedAt.isSome && row.canceledAt = none && row.updatedAt = 4000) &&
      (c.1.lastTerminated 10).any fun e => e = .terminated 10 1 5
        "0x0000000000000000000000000000000000000007" "0xcc" 0) (by decide +kernel)
  simp only [Bool.and_eq_true, Option.any_eq_true, decide_eq_true_eq] at hEnd
  obtain ⟨⟨row, hRow, ⟨⟨hStatus, hStamped⟩, hAt⟩, hUpdated⟩, e, hLast, rfl⟩ := hEnd
  refine ⟨c, hRun, row, hRow, by rw [hStatus]; rfl, hStamped, fun remaining hTold => ?_⟩
  rw [hLast, terminatedEvent, hAt, hUpdated] at hTold
  injection hTold with hTold
  injection hTold with _ _ hTime
  exact absurd hTime (by decide)

end Dipper
