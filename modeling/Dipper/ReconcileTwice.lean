import Dipper.Concurrent.Trace
import Dipper.Listener.Drain
import Dipper.Results
import Dipper.System

/-! Reconciling a snapshot a second time, as the reorg buffer makes the listener do.  The first time
moves the row's status, so that the second takes another branch; it leaves the row as it is if the
accept was on record by the time the row was ended. -/

namespace Dipper

open Concurrent World

namespace Listener

section Rows

variable {x : AgreementStateSnapshot} {row : AgreementRow} {now now' : Nat}

def acceptRecorded (x : AgreementStateSnapshot) (row : AgreementRow) : AgreementRow :=
  if row.status ≠ .cancelling || !x.state.reachedAccepted || x.acceptedAt = 0 then row
  else { row with
    acceptedAt := row.acceptedAt.or (some (asI64 x.acceptedAt))
    acceptedTx := row.acceptedTx.or (some x.acceptedTx) }

/-- Whether the snapshot asks the batch to accept or cancel the row. -/
def asks (x : AgreementStateSnapshot) (row : AgreementRow) : Bool :=
  let a := row.agreement x.agreementId
  appliesAccept x a || (cancelKind x a).isSome

/-- Whether the snapshot has the accept and the end of a row that is ended already recorded. -/
def recordsEnd (x : AgreementStateSnapshot) (row : AgreementRow) : Bool :=
  row.status.isTerminalCancel && x.state.isCanceled && x.acceptedAt ≠ 0

/-- The statement that records the accept and the end. -/
def endRecord (x : AgreementStateSnapshot) : RowUpdate :=
  .recordAcceptAndCancelAudit x.acceptedAt x.acceptedTx x.canceledAt (Address.text x.canceledBy)
    (some x.canceledTx)

/-- The row once the snapshot has been prepared and applied. -/
def reconciled (now : Nat) (x : AgreementStateSnapshot) (row : AgreementRow) : AgreementRow :=
  if asks x row then
    Agreements.reconcileRow now (reconciliationItem x (row.agreement x.agreementId))
      (acceptRecorded x row)
  else if recordsEnd x row then ((endRecord x).run now row).getD row
  else acceptRecorded x row

theorem acceptRecorded_of_ne (h : row.status ≠ .cancelling) : acceptRecorded x row = row := by
  unfold acceptRecorded
  rw [if_pos (by simp [h])]

theorem acceptRecorded_status : (acceptRecorded x row).status = row.status := by
  unfold acceptRecorded
  split <;> rfl

theorem or_or_self {α : Type} (a : Option α) (b : α) : (a.or (some b)).or (some b) = a.or (some b) := by
  cases a <;> rfl

theorem acceptRecorded_twice : acceptRecorded x (acceptRecorded x row) = acceptRecorded x row := by
  by_cases hSkip : (row.status ≠ .cancelling || !x.state.reachedAccepted || x.acceptedAt = 0) = true
  · have hSame : acceptRecorded x row = row := if_pos hSkip
    rw [hSame, hSame]
  · have hRecorded : acceptRecorded x row = { row with
        acceptedAt := row.acceptedAt.or (some (asI64 x.acceptedAt))
        acceptedTx := row.acceptedTx.or (some x.acceptedTx) } := if_neg hSkip
    rw [hRecorded, acceptRecorded, if_neg hSkip]
    simp only [or_or_self]

theorem appliesAccept_of_status {row' : AgreementRow} (h : row'.status = row.status) :
    appliesAccept x (row'.agreement x.agreementId) =
      appliesAccept x (row.agreement x.agreementId) := by
  have hStatus : (row'.agreement x.agreementId).status = (row.agreement x.agreementId).status := h
  unfold appliesAccept
  rw [hStatus]

theorem cancelKind_of_status {row' : AgreementRow} (h : row'.status = row.status) :
    cancelKind x (row'.agreement x.agreementId) = cancelKind x (row.agreement x.agreementId) := by
  have hStatus : (row'.agreement x.agreementId).status = (row.agreement x.agreementId).status := h
  unfold cancelKind
  rw [hStatus]

theorem asks_of_status {row' : AgreementRow} (h : row'.status = row.status) :
    asks x row' = asks x row := by
  unfold asks
  dsimp only
  rw [appliesAccept_of_status h, cancelKind_of_status h]

theorem reconciliationItem_of_status {row' : AgreementRow} (h : row'.status = row.status) :
    reconciliationItem x (row'.agreement x.agreementId) =
      reconciliationItem x (row.agreement x.agreementId) := by
  unfold reconciliationItem
  rw [appliesAccept_of_status h, cancelKind_of_status h]
  rfl

/-- The row's accept and end are on record, and the end on record stands beside the snapshot's. -/
structure EndSettled (x : AgreementStateSnapshot) (row : AgreementRow) : Prop where
  acceptedTx : row.acceptedTx.isSome = true
  canceledBy : row.canceledBy.isSome = true
  canceledTx : row.canceledTx.isSome = true
  stands : ∃ accepted ∈ row.acceptedAt, ∃ old ∈ row.canceledAt,
    accepted ≤ asI64 x.canceledAt → accepted ≤ old

theorem run_endRecord (now : Nat) (x : AgreementStateSnapshot) (row : AgreementRow) :
    (endRecord x).run now row =
      some { row.writeEnd (replaceEnd row (row.acceptedAt.or (some (asI64 x.acceptedAt)))
          (asI64 x.canceledAt) (some x.canceledTx)) (asI64 x.canceledAt)
          (Address.text x.canceledBy) (some x.canceledTx) with
        acceptedAt := row.acceptedAt.or (some (asI64 x.acceptedAt))
        acceptedTx := row.acceptedTx.or (some x.acceptedTx) } := rfl

theorem writeEnd_of_isSome {canceledAt : Int} {canceledBy : String} {canceledTx : Option String}
    (hAt : row.canceledAt.isSome = true) (hBy : row.canceledBy.isSome = true)
    (hTx : row.canceledTx.isSome = true) :
    row.writeEnd false canceledAt canceledBy canceledTx = row := by
  unfold AgreementRow.writeEnd
  rw [if_neg Bool.false_ne_true, Option.or_of_isSome hAt, Option.or_of_isSome hBy,
    Option.or_of_isSome hTx]

/-- An end that has its transaction is replaced only where it is before the accept. -/
theorem replaceEnd_eq_false {accepted old canceledAt : Int} {canceledTx : Option String}
    (hOld : row.canceledAt = some old) (hTx : row.canceledTx.isSome = true)
    (hStands : accepted ≤ canceledAt → accepted ≤ old) :
    replaceEnd row (some accepted) canceledAt canceledTx = false := by
  obtain ⟨tx, hTx⟩ := Option.isSome_iff_exists.mp hTx
  simp only [replaceEnd, hOld, hTx, Option.any_some, Option.isNone_some, Bool.false_and,
    Bool.or_false, Bool.and_eq_false_iff, decide_eq_false_iff_not]
  by_cases hLe : accepted ≤ canceledAt
  · exact .inr (not_lt.mpr (hStands hLe))
  · exact .inl hLe

theorem EndSettled.endRecord (h : EndSettled x row) :
    (Listener.endRecord x).run now row = some row := by
  obtain ⟨accepted, hAccepted, old, hOld, hStands⟩ := h.stands
  rw [Option.mem_def] at hAccepted hOld
  have hAt : row.acceptedAt.isSome = true := by rw [hAccepted]; rfl
  have hOldAt : row.canceledAt.isSome = true := by rw [hOld]; rfl
  rw [run_endRecord, Option.or_of_isSome hAt, Option.or_of_isSome h.acceptedTx, hAccepted,
    replaceEnd_eq_false hOld h.canceledTx hStands,
    writeEnd_of_isSome hOldAt h.canceledBy h.canceledTx, ← hAccepted]

theorem writeEnd_stands (row : AgreementRow) (accepted canceledAt : Int) (canceledBy tx : String) :
    ∃ row', row.writeEnd (replaceEnd row (some accepted) canceledAt (some tx)) canceledAt canceledBy
        (some tx) = row' ∧ row'.canceledBy.isSome = true ∧ row'.canceledTx.isSome = true ∧
      row'.status = row.status ∧ ∃ old ∈ row'.canceledAt, accepted ≤ canceledAt → accepted ≤ old := by
  refine ⟨_, rfl, ?_⟩
  unfold AgreementRow.writeEnd
  split
  · exact ⟨rfl, rfl, rfl, canceledAt, rfl, id⟩
  · rename_i hKept
    refine ⟨by simp, by simp, rfl, ?_⟩
    cases hOld : row.canceledAt with
    | none => exact ⟨canceledAt, rfl, id⟩
    | some old =>
      refine ⟨old, rfl, fun hLe => not_lt.mp fun hLt => hKept ?_⟩
      simp [replaceEnd, hOld, hLe, hLt]

theorem endSettled_endRecord {row' : AgreementRow} (h : (endRecord x).run now row = some row') :
    EndSettled x row' ∧ row'.status = row.status := by
  obtain ⟨accepted, hAccepted⟩ : ∃ accepted,
      row.acceptedAt.or (some (asI64 x.acceptedAt)) = some accepted := by
    cases row.acceptedAt with
    | none => exact ⟨_, rfl⟩
    | some accepted => exact ⟨accepted, rfl⟩
  obtain ⟨written, hWritten, hBy, hTx, hStatus, hStands⟩ := writeEnd_stands row accepted
    (asI64 x.canceledAt) (Address.text x.canceledBy) x.canceledTx
  rw [run_endRecord, hAccepted, hWritten] at h
  obtain rfl := Option.some.inj h
  exact ⟨⟨by simp, hBy, hTx, accepted, rfl, hStands⟩, hStatus⟩

/-- Whether the accept is on record of a row that the snapshot shows ended after an accept, where
applying the snapshot does not record the accept. -/
def AcceptOnRecord (x : AgreementStateSnapshot) (row : AgreementRow) : Prop :=
  x.state.isCanceled = true → x.acceptedAt ≠ 0 →
    row.status = .acceptedOnChain ∨ (row.status = .rejected ∧ x.state = .canceledByPayer) →
    row.acceptedAt.isSome = true ∧ row.acceptedTx.isSome = true

theorem cancelKind_eq_some {kind : CancelKind} {a : IndexingAgreement}
    (h : cancelKind x a = some kind) :
    x.state.isCanceled = true ∧ (kind = .byRequester → x.state = .canceledByPayer) := by
  unfold cancelKind at h
  split at h
  · cases h
  · cases hState : x.state with
    | notAccepted | accepted =>
      rw [hState] at h
      cases h
    | canceledByPayer => exact ⟨rfl, fun _ => rfl⟩
    | canceledByServiceProvider =>
      rw [hState] at h
      obtain rfl := Option.some.inj h
      exact ⟨rfl, nofun⟩

theorem cancelKind_of_open {a : IndexingAgreement} (h : x.state.isCanceled = false) :
    cancelKind x a = none := by
  unfold cancelKind
  revert h
  cases x.state <;> simp [AgreementState.isCanceled]

theorem isCanceled_of_cancelKind (hFrom : row.status ∈ acceptFrom)
    (h : cancelKind x (row.agreement x.agreementId) = none) : x.state.isCanceled = false := by
  have hOpen : (row.agreement x.agreementId).status.isTerminalCancel = false := by
    change row.status.isTerminalCancel = false
    revert hFrom
    cases row.status <;> decide
  unfold cancelKind at h
  rw [if_neg (by rw [hOpen]; exact Bool.false_ne_true)] at h
  revert h
  cases x.state <;> simp [AgreementState.isCanceled]

theorem asks_of_terminal (h : row.status.isTerminalCancel = true) : asks x row = false := by
  have hOpen : row.status ≠ .created ∧ row.status ≠ .expired := by
    revert h
    cases row.status <;> decide
  unfold asks appliesAccept cancelKind
  dsimp only [AgreementRow.agreement]
  simp [h, hOpen.1, hOpen.2]

/-- A row that the snapshot has ended stays as it is, if its accept is on record or the snapshot
has none. -/
theorem reconciled_of_ended (hEnded : row.status.isTerminalCancel = true)
    (hSettled : x.acceptedAt ≠ 0 → EndSettled x row) :
    reconciled now x row = row ∧ acceptRecorded x row = row := by
  have hNe : row.status ≠ .cancelling := by
    revert hEnded
    cases row.status <;> decide
  have hRecorded := acceptRecorded_of_ne (x := x) hNe
  refine ⟨?_, hRecorded⟩
  unfold reconciled
  rw [if_neg (by rw [asks_of_terminal hEnded]; exact Bool.false_ne_true)]
  by_cases hRecords : recordsEnd x row = true
  · have hAt : x.acceptedAt ≠ 0 := by
      unfold recordsEnd at hRecords
      simp only [Bool.and_eq_true, decide_eq_true_eq] at hRecords
      exact hRecords.2
    rw [if_pos hRecords, (hSettled hAt).endRecord]
    rfl
  · rw [if_neg hRecords, hRecorded]

theorem recorded_of_cancelled {kind : CancelKind} (hAccept : AcceptOnRecord x row)
    (hKind : cancelKind x (row.agreement x.agreementId) = some kind)
    (hFrom : row.status ∈ Agreements.cancelFrom kind)
    (hNot : row.status ∈ acceptFrom → appliesAccept x (row.agreement x.agreementId) = false)
    (hAt : x.acceptedAt ≠ 0) :
    (acceptRecorded x row).acceptedAt.isSome = true ∧
      (acceptRecorded x row).acceptedTx.isSome = true := by
  obtain ⟨hCanceled, hPayer⟩ := cancelKind_eq_some hKind
  have hReached : x.state.reachedAccepted = true := by
    revert hCanceled
    cases x.state <;> decide
  by_cases hCancelling : row.status = .cancelling
  · unfold acceptRecorded
    rw [if_neg (by simp [hCancelling, hReached, hAt])]
    exact ⟨by simp, by simp⟩
  · rw [acceptRecorded_of_ne hCancelling]
    apply hAccept hCanceled hAt
    cases hStatus : row.status with
    | acceptedOnChain => exact .inl rfl
    | rejected =>
      rw [hStatus] at hFrom
      cases kind with
      | byRequester => exact .inr ⟨rfl, hPayer rfl⟩
      | byIndexer => exact absurd hFrom (by decide)
    | created =>
      -- The snapshot would accept it.
      rw [hStatus] at hNot
      have hApplies := hNot (by decide)
      unfold appliesAccept at hApplies
      simp [AgreementRow.agreement, hStatus, hReached, hAt] at hApplies
    | cancelling => exact absurd hStatus hCancelling
    | _ =>
      rw [hStatus] at hFrom
      exact absurd hFrom (by cases kind <;> decide)

theorem ended_reconcileRow {kind : CancelKind} {base : AgreementRow} {item : ReconciliationItem}
    (hItem : item = reconciliationItem x (row.agreement x.agreementId))
    (hKind : cancelKind x (row.agreement x.agreementId) = some kind) {didAccept : Bool}
    (hMoved : Agreements.transition now item.applyAccept item.cancel base =
      (base.moved now (Agreements.cancelStatus kind base), ⟨didAccept, true⟩))
    (hAccepted : x.acceptedAt ≠ 0 →
      (didAccept = true ∧ appliesAccept x (row.agreement x.agreementId) = true) ∨
      (base.acceptedAt.isSome = true ∧ base.acceptedTx.isSome = true)) :
    (Agreements.reconcileRow now item base).status.isTerminalCancel = true ∧
      (x.acceptedAt ≠ 0 → EndSettled x (Agreements.reconcileRow now item base)) := by
  subst hItem
  unfold Agreements.reconcileRow
  rw [hMoved, Agreements.persistAudit_eq]
  constructor
  · change (Agreements.cancelStatus kind base).isTerminalCancel = true
    cases kind with
    | byIndexer => rfl
    | byRequester => cases hMark : base.abandoned <;> simp only [Agreements.cancelStatus, hMark] <;> rfl
  · intro hAt
    have hCancel : (reconciliationItem x (row.agreement x.agreementId)).cancel = some kind := hKind
    have hOld : ((reconciliationItem x (row.agreement x.agreementId)).audit.canceledAt.map asI64).or
        base.canceledAt = some (asI64 x.canceledAt) := by
      simp [reconciliationItem, hKind]
    refine ⟨?_, ?_, ?_, ?_⟩
    · rcases hAccepted hAt with ⟨rfl, hApplies⟩ | ⟨-, hTx⟩
      · simp [reconciliationItem, hApplies]
      · cases didAccept with
        | false => exact hTx
        | true =>
          change (Option.or _ base.acceptedTx).isSome = true
          rw [Option.isSome_or, hTx, Bool.or_true]
    · simp [reconciliationItem, hKind]
    · simp [reconciliationItem, hKind]
    · obtain ⟨accepted, hAccepted⟩ : ∃ accepted, (if didAccept then
          ((reconciliationItem x (row.agreement x.agreementId)).audit.acceptedAt.map asI64).or
            base.acceptedAt else base.acceptedAt) = some accepted := by
        rw [← Option.isSome_iff_exists]
        rcases hAccepted hAt with ⟨rfl, hApplies⟩ | ⟨hSome, -⟩
        · simp [reconciliationItem, hApplies]
        · cases didAccept with
          | false => exact hSome
          | true =>
            rw [if_pos rfl, Option.isSome_or, hSome, Bool.or_true]
      exact ⟨accepted, hAccepted, asI64 x.canceledAt, hOld, id⟩

/-- Reconciling a snapshot again leaves the row the first time left, if the accept was on record
where the first time did not record it. -/
theorem reconciled_twice (now now' : Nat) (hAccept : AcceptOnRecord x row) :
    reconciled now' x (reconciled now x row) = reconciled now x row ∧
      acceptRecorded x (reconciled now x row) = reconciled now x row := by
  by_cases hAsks : asks x row = true
  · have hFirst : reconciled now x row = Agreements.reconcileRow now
        (reconciliationItem x (row.agreement x.agreementId)) (acceptRecorded x row) :=
      if_pos hAsks
    rcases Agreements.transition_uniform
        (reconciliationItem x (row.agreement x.agreementId)).applyAccept
        (reconciliationItem x (row.agreement x.agreementId)).cancel (acceptRecorded x row) with
      hNothing | ⟨-, hNone, hFrom, hMoved⟩ | ⟨kind, hKind, hFrom, hNot, hMoved⟩ |
      ⟨kind, hKind, hApplies, hFrom, hMoved⟩
    · -- Nothing matched, and nothing will.
      have hSame : reconciled now x row = acceptRecorded x row := by
        rw [hFirst, Agreements.reconcileRow, hNothing now]
        rfl
      have hStatus : (acceptRecorded x row).status = row.status := acceptRecorded_status
      rw [hSame]
      refine ⟨?_, acceptRecorded_twice⟩
      unfold reconciled
      rw [if_pos ((asks_of_status hStatus).trans hAsks), acceptRecorded_twice,
        reconciliationItem_of_status hStatus, Agreements.reconcileRow, hNothing now']
      rfl
    · -- The accept has moved the row on, and the snapshot has no end.
      have hStatus : (reconciled now x row).status = .acceptedOnChain := by
        rw [hFirst, Agreements.reconcileRow_status, hMoved now]
        rfl
      rw [acceptRecorded_status] at hFrom
      have hOpen := isCanceled_of_cancelKind hFrom hNone
      have hRecorded : acceptRecorded x (reconciled now x row) = reconciled now x row :=
        acceptRecorded_of_ne (by rw [hStatus]; decide)
      refine ⟨?_, hRecorded⟩
      have hAsks' : ¬asks x (reconciled now x row) = true := by
        unfold asks appliesAccept
        dsimp only [AgreementRow.agreement]
        simp [cancelKind_of_open hOpen, hStatus]
      have hRecords' : ¬recordsEnd x (reconciled now x row) = true := by
        unfold recordsEnd
        simp [hOpen]
      rw [reconciled, if_neg hAsks', if_neg hRecords', hRecorded]
    · have hAccepted : x.acceptedAt ≠ 0 →
          (false = true ∧ appliesAccept x (row.agreement x.agreementId) = true) ∨
          ((acceptRecorded x row).acceptedAt.isSome = true ∧
            (acceptRecorded x row).acceptedTx.isSome = true) := by
        intro hAt
        rw [acceptRecorded_status] at hFrom
        rw [acceptRecorded_status] at hNot
        exact .inr (recorded_of_cancelled hAccept hKind hFrom hNot hAt)
      rw [hFirst]
      obtain ⟨hEnded, hSettled⟩ := ended_reconcileRow rfl hKind (hMoved now) hAccepted
      exact reconciled_of_ended hEnded hSettled
    · rw [hFirst]
      obtain ⟨hEnded, hSettled⟩ := ended_reconcileRow rfl hKind (hMoved now)
        fun _ => .inl ⟨rfl, hApplies⟩
      exact reconciled_of_ended hEnded hSettled
  · by_cases hRecords : recordsEnd x row = true
    · obtain ⟨row', hRun⟩ : ∃ row', (endRecord x).run now row = some row' := ⟨_, run_endRecord ..⟩
      obtain ⟨hSettled, hStatus⟩ := endSettled_endRecord hRun
      have hFirst : reconciled now x row = row' := by
        unfold reconciled
        rw [if_neg hAsks, if_pos hRecords, hRun]
        rfl
      have hEnded : row'.status.isTerminalCancel = true := by
        rw [hStatus]
        unfold recordsEnd at hRecords
        simp only [Bool.and_eq_true] at hRecords
        exact hRecords.1.1
      rw [hFirst]
      exact reconciled_of_ended hEnded fun _ => hSettled
    · have hFirst : reconciled now x row = acceptRecorded x row := by
        unfold reconciled
        rw [if_neg hAsks, if_neg hRecords]
      have hStatus : (acceptRecorded x row).status = row.status := acceptRecorded_status
      have hRecords' : recordsEnd x (acceptRecorded x row) = recordsEnd x row := by
        unfold recordsEnd
        rw [hStatus]
      rw [hFirst]
      refine ⟨?_, acceptRecorded_twice⟩
      unfold reconciled
      rw [asks_of_status hStatus, hRecords', if_neg hAsks, if_neg hRecords, acceptRecorded_twice]

def auditColumns (row : AgreementRow) : IndexingAgreementStatus × (Option Int × Option String) ×
    Option Int × Option String × Option String :=
  (row.status, (row.acceptedAt, row.acceptedTx), row.canceledAt, row.canceledBy, row.canceledTx)

/-- A row that is accepted, or rejected and then cancelled by the payer, is ended by a cancel alone,
which leaves its accept as it is on record. -/
theorem reconciled_of_cancelled (now : Nat) (hCanceled : x.state.isCanceled = true)
    (hStatus : row.status = .acceptedOnChain ∨
      (row.status = .rejected ∧ x.state = .canceledByPayer)) :
    (reconciled now x row).status.isTerminalCancel = true ∧
      (reconciled now x row).acceptedAt = row.acceptedAt ∧
      (reconciled now x row).acceptedTx = row.acceptedTx := by
  obtain ⟨kind, hKind, hFrom⟩ : ∃ kind, cancelKind x (row.agreement x.agreementId) = some kind ∧
      row.status ∈ Agreements.cancelFrom kind := by
    have hAgreement : (row.agreement x.agreementId).status = row.status := rfl
    unfold cancelKind
    rcases hStatus with hStatus | ⟨hStatus, hPayer⟩
    · rw [hAgreement, hStatus]
      revert hCanceled
      cases x.state with
      | notAccepted | accepted => exact nofun
      | canceledByPayer => exact fun _ => ⟨.byRequester, rfl, by decide⟩
      | canceledByServiceProvider => exact fun _ => ⟨.byIndexer, rfl, by decide⟩
    · rw [hAgreement, hStatus, hPayer]
      exact ⟨.byRequester, rfl, by decide⟩
  have hApplies : appliesAccept x (row.agreement x.agreementId) = false := by
    unfold appliesAccept
    dsimp only [AgreementRow.agreement]
    rcases hStatus with hStatus | ⟨hStatus, -⟩ <;> simp [hStatus]
  have hRecorded : acceptRecorded x row = row := by
    refine acceptRecorded_of_ne ?_
    rcases hStatus with hStatus | ⟨hStatus, -⟩ <;> rw [hStatus] <;> decide
  have hMoved : Agreements.transition now false (some kind) row =
      (row.moved now (Agreements.cancelStatus kind row), ⟨false, true⟩) := by
    have hRow : Agreements.cancelRow now kind row = some _ :=
      Agreements.cancelRow_eq_some.mpr ⟨hFrom, rfl⟩
    simp [Agreements.transition, hRow]
  have hFirst : reconciled now x row = Agreements.persistAudit ⟨false, true⟩
      (reconciliationItem x (row.agreement x.agreementId)).audit
      (row.moved now (Agreements.cancelStatus kind row)) := by
    rw [reconciled, if_pos (by simp [asks, hKind]), hRecorded, Agreements.reconcileRow,
      show (reconciliationItem x (row.agreement x.agreementId)).applyAccept = false from hApplies,
      show (reconciliationItem x (row.agreement x.agreementId)).cancel = some kind from hKind,
      hMoved]
  rw [hFirst, Agreements.persistAudit_eq]
  refine ⟨?_, rfl, rfl⟩
  change (Agreements.cancelStatus kind row).isTerminalCancel = true
  cases kind with
  | byIndexer => rfl
  | byRequester => cases hMark : row.abandoned <;> simp only [Agreements.cancelStatus, hMark] <;> rfl

/-- Where the accept was not on record and applying the snapshot does not record it, the second time
does. -/
theorem reconciled_twice_ne (now now' : Nat) (h : ¬AcceptOnRecord x row) :
    auditColumns (reconciled now' x (reconciled now x row)) ≠
      auditColumns (reconciled now x row) := by
  obtain ⟨hCanceled, hAt, hStatus, hMissing⟩ : x.state.isCanceled = true ∧ x.acceptedAt ≠ 0 ∧
      (row.status = .acceptedOnChain ∨ (row.status = .rejected ∧ x.state = .canceledByPayer)) ∧
      ¬(row.acceptedAt.isSome = true ∧ row.acceptedTx.isSome = true) := by
    simpa [AcceptOnRecord] using h
  obtain ⟨hEnded, hAcceptedAt, hAcceptedTx⟩ := reconciled_of_cancelled now hCanceled hStatus
  generalize reconciled now x row = first at *
  have hRecords : recordsEnd x first = true := by
    unfold recordsEnd
    simp [hEnded, hCanceled, hAt]
  have hSecond : reconciled now' x first = ((endRecord x).run now' first).getD first := by
    rw [reconciled, if_neg (by simp [asks_of_terminal hEnded]), if_pos hRecords]
  rw [hSecond, run_endRecord, Option.getD_some]
  intro hSame
  obtain ⟨hAcceptedAt', hAcceptedTx'⟩ := Prod.mk.inj (Prod.mk.inj (Prod.mk.inj hSame).2).1
  refine hMissing ⟨?_, ?_⟩
  · rw [← hAcceptedAt, ← hAcceptedAt']
    simp
  · rw [← hAcceptedTx, ← hAcceptedTx']
    simp

end Rows

/-- Prepare and apply a snapshot, as a page of its own; whether both succeeded. -/
def reconcileSnapshot (x : AgreementStateSnapshot) (queued : List (IndexingAgreementId × Nat)) :
    Act Bool := do
  let (stopped, work) ← preparePage [x] queued
  if stopped then return false
  let (work, _) ← applyPage work
  return work.unapplied.isEmpty

section Runs

variable {α β : Type} {x : AgreementStateSnapshot} {row : AgreementRow} {w w' : World}

/-- Others leave the row as it is. -/
def SameRow (id : IndexingAgreementId) (w w' : World) : Prop := w'.row id = w.row id

theorem SameRow.refl (id : IndexingAgreementId) (w : World) : SameRow id w w := rfl

/-- The row has been left as it was, or is on the way to where the snapshot takes it. -/
def Stage (x : AgreementStateSnapshot) (row : AgreementRow) (w : World) : Prop :=
  ∃ row', w.row x.agreementId = some row' ∧
    (row' = row ∨ row' = acceptRecorded x row ∨ ∃ now, row' = reconciled now x row)

/-- The row is where the snapshot takes it. -/
def Reached (x : AgreementStateSnapshot) (row : AgreementRow) (w : World) : Prop :=
  ∃ now, w.row x.agreementId = some (reconciled now x row)

theorem Stage.stable (hSame : SameRow x.agreementId w w') (h : Stage x row w) : Stage x row w' := by
  obtain ⟨row', hRow, hStage⟩ := h
  exact ⟨row', hSame.trans hRow, hStage⟩

theorem Reached.stage (h : Reached x row w) : Stage x row w := by
  obtain ⟨now, hRow⟩ := h
  exact ⟨_, hRow, .inr (.inr ⟨now, rfl⟩)⟩

theorem Reached.stable (hSame : SameRow x.agreementId w w') (h : Reached x row w) :
    Reached x row w' := by
  obtain ⟨now, hRow⟩ := h
  exact ⟨now, hSame.trans hRow⟩

/-- A program that takes the row along these stages only. -/
abbrev Reconciles (x : AgreementStateSnapshot) (row : AgreementRow) (p : Act α)
    (post : α → World → Prop) (w : World) : Prop :=
  p.Meets (World.Performs fun _ _ _ => True) (SameRow x.agreementId)
    (fun _ _ _ w' _ => Stage x row w') (fun a _ => post a) () w

theorem reconciles_bind {p : Act α} {k : α → Act β} {post : β → World → Prop}
    (h : Reconciles x row p (fun a w => Reconciles x row (k a) post w) w) :
    Reconciles x row (p >>= k) post w :=
  Prog.Meets.bind (SameRow.refl x.agreementId) h

theorem reconciles_pure {a : α} {post : α → World → Prop}
    (h : ∀ w', SameRow x.agreementId w w' → post a w') : Reconciles x row (pure a) post w := h

theorem reconciles_call {o : Op} {post : Res o → World → Prop}
    (h : ∀ w1 c r w2, SameRow x.agreementId w w1 → w1.exec o c = some (r, w2) →
      Stage x row w2 ∧ ∀ w3, SameRow x.agreementId w2 w3 → post r w3) :
    Reconciles x row (call o) post w := by
  intro w1 hSame r w2 hPerforms
  obtain ⟨c, -, hExec⟩ := hPerforms
  obtain ⟨hStage, hPost⟩ := h w1 c r w2 hSame hExec
  exact ⟨(), hStage, hPost⟩

theorem reconciles_read {o : Op} {row' : AgreementRow} {post : Res o → World → Prop}
    (hRow : w.row x.agreementId = some row') (hStage : Stage x row w)
    (hKeeps : ∀ {w1 w2 : World}, Effect w1 w2 o → SameRow x.agreementId w1 w2)
    (h : ∀ (w1 : World) c r w2, w1.row x.agreementId = some row' → w1.exec o c = some (r, w2) →
      ∀ w3 : World, w3.row x.agreementId = some row' → post r w3) :
    Reconciles x row (call o) post w := by
  apply reconciles_call
  intro w1 c r w2 hSame1 hExec
  have hRow1 := hSame1.trans hRow
  have hSame2 : SameRow x.agreementId w1 w2 := hKeeps (exec_effect hExec)
  refine ⟨(hStage.stable hSame1).stable hSame2, fun w3 hSame3 => ?_⟩
  exact h w1 c r w2 hRow1 hExec w3 (hSame3.trans (hSame2.trans hRow1))

/-- An update that takes the row to a stage: where it answers it has, and where it fails the row is
where it was or where the update takes it. -/
theorem reconciles_update {u : RowUpdate} {row' : AgreementRow}
    {post : Except RegistryError Updated → World → Prop}
    (hRow : w.row x.agreementId = some row') (hStage : Stage x row w)
    (hNext : ∀ w1 : World, ∃ row'', u.run w1.now row' = some row'' ∧
      ∀ w2 : World, w2.row x.agreementId = some row'' →
        Stage x row w2 ∧ ∀ updated, post (.ok updated) w2)
    (hError : ∀ e w2, Stage x row w2 → post (.error e) w2) :
    Reconciles x row (Registry.update x.agreementId u) post w := by
  apply reconciles_call
  intro w1 c r w2 hSame hExec
  have hRow1 := hSame.trans hRow
  obtain ⟨row'', hRun, hPost⟩ := hNext w1
  have hStage2 : Stage x row w2 := by
    have hEffect := (exec_effect hExec).row trivial x.agreementId
    rw [hRow1] at hEffect
    generalize hAfter : w2.row x.agreementId = after at hEffect
    cases hEffect with
    | same => exact (hStage.stable hSame).stable (hAfter.trans hRow1.symm)
    | update hRun' =>
      obtain rfl := Option.some.inj (hRun.symm.trans hRun')
      exact (hPost w2 hAfter).1
  refine ⟨hStage2, fun w3 hSame3 => ?_⟩
  cases r with
  | error e => exact hError e w3 (hStage2.stable hSame3)
  | ok updated =>
    exact (hPost w3 (hSame3.trans (exec_update_row hExec hRow1 hRun))).2 updated

theorem reconciles_checkEndedButAccepted {queued : List (IndexingAgreementId × Nat)}
    (hRow : w.row x.agreementId = some row) :
    Reconciles x row (checkEndedButAccepted x (row.agreement x.agreementId) queued)
      (fun _ w' => w'.row x.agreementId = some row) w := by
  have hStage : Stage x row w := ⟨row, hRow, .inl rfl⟩
  have hPure : ∀ (w1 : World) {a : Except Unit (List (IndexingAgreementId × Nat))},
      w1.row x.agreementId = some row →
      Reconciles x row (pure a) (fun _ w' => w'.row x.agreementId = some row) w1 :=
    fun w1 _ hRow1 => reconciles_pure fun w' hSame => hSame.trans hRow1
  unfold checkEndedButAccepted queueLiveCheck
  split
  · dsimp only
    split
    · exact hPure w hRow
    · apply reconciles_bind
      apply reconciles_read hRow hStage
      · intro w1 w2 hEffect
        rcases hEffect with rfl | rfl
        · rfl
        · rfl
      · intro w1 c r w2 hRow1 hExec w3 hRow3
        cases r <;> exact hPure w3 hRow3
  · exact hPure w hRow

theorem reconciles_recordAcceptOfCancelling (hRow : w.row x.agreementId = some row) :
    Reconciles x row (recordAcceptOfCancelling x (row.agreement x.agreementId))
      (fun r w' => Stage x row w' ∧
        (r = .ok () → w'.row x.agreementId = some (acceptRecorded x row))) w := by
  have hStage : Stage x row w := ⟨row, hRow, .inl rfl⟩
  unfold recordAcceptOfCancelling
  split
  · rename_i hSkip
    refine reconciles_pure fun w' hSame => ⟨hStage.stable hSame, fun _ => ?_⟩
    have hRecorded : acceptRecorded x row = row := if_pos hSkip
    rw [hRecorded]
    exact hSame.trans hRow
  · rename_i hRecords
    have hRecorded : acceptRecorded x row = { row with
        acceptedAt := row.acceptedAt.or (some (asI64 x.acceptedAt))
        acceptedTx := row.acceptedTx.or (some x.acceptedTx) } := if_neg hRecords
    apply reconciles_bind
    apply reconciles_update hRow hStage
    · intro w1
      refine ⟨acceptRecorded x row, by rw [hRecorded]; rfl, fun w2 hRow2 => ?_⟩
      have hStage2 : Stage x row w2 := ⟨_, hRow2, .inr (.inl rfl)⟩
      refine ⟨hStage2, fun _ => reconciles_pure fun w3 hSame => ?_⟩
      exact ⟨hStage2.stable hSame, fun _ => hSame.trans hRow2⟩
    · intro e w2 hStage2
      exact reconciles_pure fun w3 hSame => ⟨hStage2.stable hSame, nofun⟩

def prepared (x : AgreementStateSnapshot) (row : AgreementRow) : PreparedReconciliation :=
  ⟨reconciliationItem x (row.agreement x.agreementId), row.agreement x.agreementId⟩

/-- What the preparation of the snapshot leaves: the item to apply, with the row ready for it, or
nothing to apply, with the row where the snapshot takes it unless the preparation failed. -/
def Prepares (x : AgreementStateSnapshot) (row : AgreementRow) (w : World) :
    Except Unit (Option PreparedReconciliation) → Prop
  | .ok (some prep) => prep = prepared x row ∧ asks x row = true ∧
      w.row x.agreementId = some (acceptRecorded x row)
  | .ok none => Reached x row w
  | .error _ => Stage x row w

theorem Prepares.stable {r : Except Unit (Option PreparedReconciliation)}
    (hSame : SameRow x.agreementId w w') (h : Prepares x row w r) : Prepares x row w' r := by
  match r, h with
  | .ok (some _), h => exact ⟨h.1, h.2.1, hSame.trans h.2.2⟩
  | .ok none, h => exact Reached.stable hSame h
  | .error _, h => exact Stage.stable hSame h

theorem reached_of_quiet (hAsks : ¬asks x row = true) (hRecords : ¬recordsEnd x row = true)
    (hRow : w.row x.agreementId = some (acceptRecorded x row)) : Reached x row w := by
  refine ⟨0, ?_⟩
  rw [reconciled, if_neg hAsks, if_neg hRecords]
  exact hRow

theorem reconciles_decideReconciliation
    (hRow : w.row x.agreementId = some (acceptRecorded x row)) :
    Reconciles x row (decideReconciliation x (row.agreement x.agreementId))
      (fun r w' => Prepares x row w' r) w := by
  unfold decideReconciliation
  split
  · rename_i hAsks
    exact reconciles_pure fun w' hSame => ⟨rfl, hAsks, hSame.trans hRow⟩
  · rename_i hAsks
    have hAsks : ¬asks x row = true := hAsks
    split
    · rename_i hEnded
      unfold recordAcceptAndCancelFromChain
      obtain ⟨hTerminal, hCanceled⟩ := Bool.and_eq_true_iff.mp hEnded
      split
      · rename_i hZero
        have hRecords : ¬recordsEnd x row = true := by
          unfold recordsEnd
          simp [hZero]
        exact reconciles_pure fun w' hSame => reached_of_quiet hAsks hRecords (hSame.trans hRow)
      · rename_i hAt
        have hRecords : recordsEnd x row = true := by
          unfold recordsEnd
          have hTerminal' : row.status.isTerminalCancel = true := hTerminal
          simp [hTerminal', hCanceled, hAt]
        have hNe : row.status ≠ .cancelling := by
          have hTerminal' : row.status.isTerminalCancel = true := hTerminal
          revert hTerminal'
          cases row.status <;> decide
        have hStage : Stage x row w := ⟨_, hRow, .inr (.inl rfl)⟩
        rw [acceptRecorded_of_ne hNe] at hRow
        have hNext : ∀ w1 : World, ∃ row', (endRecord x).run w1.now row = some row' ∧
            reconciled w1.now x row = row' := by
          intro w1
          refine ⟨_, run_endRecord .., ?_⟩
          rw [reconciled, if_neg hAsks, if_pos hRecords, run_endRecord]
          rfl
        apply reconciles_bind
        apply reconciles_bind
        apply reconciles_update hRow hStage
        · intro w1
          obtain ⟨row', hRun, hReconciled⟩ := hNext w1
          refine ⟨row', hRun, fun w2 hRow2 => ?_⟩
          have hReached : Reached x row w2 := ⟨w1.now, hReconciled ▸ hRow2⟩
          refine ⟨hReached.stage, fun _ => reconciles_pure fun w3 hSame3 => ?_⟩
          exact reconciles_pure fun w4 hSame4 => (hReached.stable hSame3).stable hSame4
        · intro e w2 hStage2
          refine reconciles_pure fun w3 hSame3 => ?_
          exact reconciles_pure fun w4 hSame4 => (hStage2.stable hSame3).stable hSame4
    · rename_i hOpen
      have hRecords : ¬recordsEnd x row = true := by
        intro hRecords
        unfold recordsEnd at hRecords
        exact hOpen (Bool.and_eq_true_iff.mp hRecords).1
      exact reconciles_pure fun w' hSame => reached_of_quiet hAsks hRecords (hSame.trans hRow)

theorem reconciles_prepareReconciliation {queued : List (IndexingAgreementId × Nat)}
    (hRow : w.row x.agreementId = some row) :
    Reconciles x row (prepareReconciliation x (some (row.agreement x.agreementId)) queued)
      (fun r w' => Prepares x row w' r.1) w := by
  apply reconciles_bind
  refine (reconciles_checkEndedButAccepted hRow).mono fun r _ w1 hRow1 => ?_
  cases r with
  | error e => exact reconciles_pure fun w2 hSame => ⟨row, hSame.trans hRow1, .inl rfl⟩
  | ok queued' =>
    apply reconciles_bind
    refine (reconciles_recordAcceptOfCancelling hRow1).mono fun r _ w2 hPost => ?_
    cases r with
    | error e => exact reconciles_pure fun w3 hSame => hPost.1.stable hSame
    | ok u =>
      apply reconciles_bind
      refine (reconciles_decideReconciliation (hPost.2 rfl)).mono fun r _ w3 hPrepares => ?_
      exact reconciles_pure fun w4 hSame => hPrepares.stable hSame

/-- What the preparation of the page leaves. -/
def PageReady (x : AgreementStateSnapshot) (row : AgreementRow) (w : World) (work : PageWork) :
    Prop :=
  (work.prepared = [prepared x row] ∧ asks x row = true ∧
    w.row x.agreementId = some (acceptRecorded x row)) ∨
  (work.prepared = [] ∧ Stage x row w ∧ (work.unapplied = [] → Reached x row w))

theorem pageReady_add {work : PageWork} {queued : List (IndexingAgreementId × Nat)}
    {r : Except Unit (Option PreparedReconciliation)} (hNone : work.prepared = [])
    (h : Prepares x row w r) : PageReady x row w (work.add x.agreementId r queued) := by
  match r, h with
  | .ok (some prep), h =>
    obtain ⟨rfl, hRest⟩ := h
    exact .inl ⟨by rw [PageWork.add, hNone]; rfl, hRest⟩
  | .ok none, h => exact .inr ⟨hNone, Reached.stage h, fun _ => h⟩
  | .error _, h => exact .inr ⟨hNone, h, fun hNil => absurd hNil (by simp [PageWork.add])⟩

theorem pageReady_unread {work : PageWork} (hNone : work.prepared = [])
    (hFailed : work.unapplied ≠ []) (h : Stage x row w) : PageReady x row w work :=
  .inr ⟨hNone, h, fun hNil => absurd hNil hFailed⟩

theorem exec_select_one {c : Choice} {rows : List (IndexingAgreementId × AgreementRow)}
    (hRow : w.row x.agreementId = some row)
    (h : w.exec (.select (.byIds [x.agreementId])) c = some (.ok rows, w')) :
    (Registry.agreements rows).find? (fun a => a.id = x.agreementId) =
      some (row.agreement x.agreementId) := by
  have hRows : ∀ p ∈ rows, p = (x.agreementId, row) := by
    intro p hMem
    obtain ⟨hFound, hSelects⟩ := exec_select_row h hMem
    have hId : p.1 = x.agreementId := List.mem_singleton.mp (of_decide_eq_true hSelects)
    rw [hId] at hFound
    exact Prod.ext hId (Option.some.inj (hFound.symm.trans hRow))
  have hMem := (exec_select_page h).2 x.agreementId (List.mem_singleton_self _) row hRow
  cases rows with
  | nil => cases hMem
  | cons p rest =>
    obtain rfl := hRows p List.mem_cons_self
    exact List.find?_cons_of_pos (decide_eq_true rfl)

theorem reconciles_prepareEach {agreement : Option IndexingAgreement}
    {agreements : List IndexingAgreement} {work : PageWork}
    (hRow : w.row x.agreementId = some row)
    (hFound : agreements.find? (fun a => a.id = x.agreementId) = agreement)
    (hAgreement : agreement = some (row.agreement x.agreementId) ∨
      (agreement = none ∧ work.unapplied ≠ []))
    (hNone : work.prepared = []) :
    Reconciles x row (prepareEach [x] agreements work)
      (fun r w' => r.1 = false → PageReady x row w' r.2) w := by
  have hStage : Stage x row w := ⟨row, hRow, .inl rfl⟩
  unfold prepareEach
  apply reconciles_bind
  apply reconciles_read hRow hStage
  · rintro w1 _ rfl
    rfl
  · intro w1 c stopped w2 hRow1 hExec w3 hRow3
    cases stopped with
    | true => exact reconciles_pure fun _ _ => nofun
    | false =>
      apply reconciles_bind
      rw [hFound]
      rcases hAgreement with rfl | ⟨rfl, hFailed⟩
      · refine (reconciles_prepareReconciliation hRow3).mono fun r _ w4 hPrepares => ?_
        exact reconciles_pure fun w5 hSame _ => pageReady_add hNone (hPrepares.stable hSame)
      · have hStage3 : Stage x row w3 := ⟨row, hRow3, .inl rfl⟩
        refine reconciles_pure fun w4 hSame4 => ?_
        exact reconciles_pure fun w5 hSame5 _ =>
          pageReady_unread hNone hFailed ((hStage3.stable hSame4).stable hSame5)

theorem reconciles_preparePage {queued : List (IndexingAgreementId × Nat)}
    (hRow : w.row x.agreementId = some row) :
    Reconciles x row (preparePage [x] queued)
      (fun r w' => r.1 = false → PageReady x row w' r.2) w := by
  have hStage : Stage x row w := ⟨row, hRow, .inl rfl⟩
  unfold preparePage
  apply reconciles_bind
  apply reconciles_bind
  apply reconciles_read hRow hStage
  · intro w1 w2 hEffect
    rcases hEffect with rfl | ⟨listed, -, rfl⟩
    · rfl
    · rfl
  · intro w1 c r w2 hRow1 hExec w3 hRow3
    cases r with
    | error e =>
      refine reconciles_pure fun w4 hSame => ?_
      exact reconciles_prepareEach (hSame.trans hRow3) rfl (.inr ⟨rfl, by simp⟩) rfl
    | ok rows =>
      refine reconciles_pure fun w4 hSame => ?_
      exact reconciles_prepareEach (hSame.trans hRow3) (exec_select_one hRow1 hExec) (.inl rfl) rfl

theorem reconciles_applyPage {work : PageWork} (h : PageReady x row w work) :
    Reconciles x row (applyPage work)
      (fun r w' => Stage x row w' ∧ (r.1.unapplied = [] → Reached x row w')) w := by
  unfold applyPage
  rcases h with ⟨hOne, hAsks, hRow⟩ | ⟨hNone, hStage, hReached⟩
  · rw [hOne]
    apply reconciles_bind
    apply reconciles_call
    intro w1 c r w2 hSame hExec
    have hRow1 := hSame.trans hRow
    have hMoved : ∀ now, reconciled now x row = Agreements.reconcileRow now (prepared x row).item
        (acceptRecorded x row) := fun now => if_pos hAsks
    have hStage2 : Stage x row w2 := by
      have hEffect := (exec_effect hExec).row (List.nodup_singleton _) x.agreementId
      rw [hRow1] at hEffect
      generalize hAfter : w2.row x.agreementId = after at hEffect
      cases hEffect with
      | same => exact ⟨_, hAfter, .inr (.inl rfl)⟩
      | batch hItem hId =>
        obtain rfl := List.mem_singleton.mp hItem
        exact ⟨_, hAfter, .inr (.inr ⟨w1.now, (hMoved _).symm⟩)⟩
    refine ⟨hStage2, fun w3 hSame3 => ?_⟩
    cases r with
    | error e =>
      refine reconciles_pure fun w4 hSame4 => ?_
      exact ⟨(hStage2.stable hSame3).stable hSame4, fun hNil => absurd hNil (by simp)⟩
    | ok outcomes =>
      have hReached : Reached x row w2 := by
        refine ⟨w1.now, ?_⟩
        rw [hMoved]
        exact exec_batch_row hExec (List.nodup_singleton _) List.mem_cons_self hRow1
      refine reconciles_pure fun w4 hSame4 => ?_
      have hReached4 := (hReached.stable hSame3).stable hSame4
      exact ⟨hReached4.stage, fun _ => hReached4⟩
  · rw [hNone]
    exact reconciles_pure fun w' hSame =>
      ⟨hStage.stable hSame, fun hNil => (hReached hNil).stable hSame⟩

theorem reconciles_reconcileSnapshot {queued : List (IndexingAgreementId × Nat)}
    (hRow : w.row x.agreementId = some row) :
    Reconciles x row (reconcileSnapshot x queued) (fun done w' => done = true → Reached x row w')
      w := by
  unfold reconcileSnapshot
  apply reconciles_bind
  refine (reconciles_preparePage hRow).mono fun r _ w1 hReady => ?_
  obtain ⟨stopped, work⟩ := r
  cases stopped with
  | true => exact reconciles_pure fun _ _ => nofun
  | false =>
    apply reconciles_bind
    refine (reconciles_applyPage (hReady rfl)).mono fun r _ w2 hPost => ?_
    refine reconciles_pure fun w3 hSame hDone => (hPost.2 ?_).stable hSame
    exact List.isEmpty_iff.mp hDone

theorem stages_of_runs {queued : List (IndexingAgreementId × Nat)} {tr : List (Action World Op)}
    {out : Option Bool} (hRow : w.row x.agreementId = some row)
    (run : (reconcileSnapshot x queued).Runs (World.Performs fun _ _ _ => True)
      (SameRow x.agreementId) w tr out w') :
    Stage x row w' ∧ (out = some true → Reached x row w') := by
  have hStart : Stage x row w := ⟨row, hRow, .inl rfl⟩
  have hStable : ∀ v v', SameRow x.agreementId v v' → Stage x row v → Stage x row v' :=
    fun _ _ hSame h => h.stable hSame
  obtain ⟨hStage, hPost⟩ := Prog.Meets.ends hStable (fun _ _ _ _ _ h => h)
    (reconciles_reconcileSnapshot hRow) run hStart
  refine ⟨hStage, fun hDone => ?_⟩
  obtain ⟨-, hReached⟩ := hPost true hDone
  exact hReached rfl

end Runs

/-- Reconciling a snapshot again, with no other writer of its row in between and however the second
time goes, leaves the row as the first time left it, if the accept of a row the snapshot ends was
on record where applying the snapshot does not record it; and where the second time succeeds, it
leaves the status, accept and cancel columns only then. -/
theorem reconcile_twice {x : AgreementStateSnapshot} {row : AgreementRow} {w w1 w2 : World}
    {queued queued' : List (IndexingAgreementId × Nat)} {tr tr' : List (Action World Op)}
    {out : Option Bool} (hRow : w.row x.agreementId = some row)
    (first : (reconcileSnapshot x queued).Runs (World.Performs fun _ _ _ => True)
      (SameRow x.agreementId) w tr (some true) w1)
    (second : (reconcileSnapshot x queued').Runs (World.Performs fun _ _ _ => True)
      (SameRow x.agreementId) w1 tr' out w2) :
    (AcceptOnRecord x row → w2.row x.agreementId = w1.row x.agreementId) ∧
      (out = some true → ((w2.row x.agreementId).map auditColumns =
        (w1.row x.agreementId).map auditColumns ↔ AcceptOnRecord x row)) := by
  obtain ⟨now, hRow1⟩ := (stages_of_runs hRow first).2 rfl
  obtain ⟨row2, hRow2, hStage⟩ := (stages_of_runs hRow1 second).1
  have hKept : AcceptOnRecord x row → w2.row x.agreementId = w1.row x.agreementId := by
    intro hAccept
    -- Each stage the row can be at is where it was.
    have hSame : row2 = reconciled now x row := by
      rcases hStage with rfl | rfl | ⟨now', rfl⟩
      · rfl
      · exact (reconciled_twice now now hAccept).2
      · exact (reconciled_twice now now' hAccept).1
    rw [hRow1, hRow2, hSame]
  refine ⟨hKept, fun hDone => ⟨fun hSame => ?_, fun hAccept => by rw [hKept hAccept]⟩⟩
  by_contra hMissing
  obtain ⟨now', hReached⟩ := (stages_of_runs hRow1 second).2 hDone
  rw [hReached, hRow1] at hSame
  exact reconciled_twice_ne now now' hMissing (Option.some.inj hSame)

theorem runs_reconcileSnapshot (x : AgreementStateSnapshot) (w : World) (choices : List Choice) :
    (reconcileSnapshot x []).Runs (World.Performs fun _ _ _ => True) (SameRow x.agreementId) w
      ((reconcileSnapshot x []).play World.exec w choices).1
      ((reconcileSnapshot x []).play World.exec w choices).2.1
      ((reconcileSnapshot x []).play World.exec w choices).2.2 :=
  Prog.runs_play (SameRow.refl x.agreementId) (fun _ _ c _ _ hExec => ⟨c, trivial, hExec⟩) _ _ _

/-- Agreement 10 is accepted and cancelled by one snapshot, which is then read again. -/
theorem cancel_reconciled_twice : ∃ w1 w2 : World, (w1.row 10).any (·.status = .canceledByIndexer) ∧
    w2.row 10 = w1.row 10 := by
  let x := sampleSnapshot 10 .canceledByServiceProvider 3 5 5
  let choices : List Choice := [.rows [10], .answer false, .ok]
  have first := runs_reconcileSnapshot x offeredWorld choices
  have hDone : ((reconcileSnapshot x []).play World.exec offeredWorld choices).2.1 = some true := by
    decide +kernel
  have hEnded : ((((reconcileSnapshot x []).play World.exec offeredWorld choices).2.2.row 10).any
      (·.status = .canceledByIndexer)) = true := by
    decide +kernel
  rw [hDone] at first
  have second := runs_reconcileSnapshot x
    ((reconcileSnapshot x []).play World.exec offeredWorld choices).2.2 choices
  have hRow : offeredWorld.row 10 = some sampleAgreement := by decide +kernel
  exact ⟨_, _, hEnded, (reconcile_twice hRow first second).1
    fun _ _ hStatus => by revert hStatus; decide⟩

/-- Agreement 10 was rejected with no accept on record when a snapshot showed it accepted and
cancelled: the first time ends the row, and the second puts the accept on it. -/
theorem rejected_reconciled_twice : ∃ (x : AgreementStateSnapshot) (w w1 w2 : World)
    (tr tr' : List (Action World Op)),
    (reconcileSnapshot x []).Runs (World.Performs fun _ _ _ => True) (SameRow x.agreementId) w tr
        (some true) w1 ∧
      (reconcileSnapshot x []).Runs (World.Performs fun _ _ _ => True) (SameRow x.agreementId) w1
        tr' (some true) w2 ∧
      (w1.row x.agreementId).map (·.acceptedAt) = some none ∧
      (w2.row x.agreementId).map (·.acceptedAt) = some (some 5) := by
  let x := sampleSnapshot 10 .canceledByPayer 3 5 5
  let w := offeredWorld.setRow 10 { sampleAgreement with status := .rejected }
  let choices : List Choice := [.rows [10], .answer false, .ok]
  let w1 := ((reconcileSnapshot x []).play World.exec w choices).2.2
  have first := runs_reconcileSnapshot x w choices
  have second := runs_reconcileSnapshot x w1 choices
  have hDone : ((reconcileSnapshot x []).play World.exec w choices).2.1 = some true := by
    decide +kernel
  have hDone' : ((reconcileSnapshot x []).play World.exec w1 choices).2.1 = some true := by
    decide +kernel
  rw [hDone] at first
  rw [hDone'] at second
  exact ⟨x, w, w1, _, _, _, first, second, by decide +kernel, by decide +kernel⟩

end Listener

end Dipper
