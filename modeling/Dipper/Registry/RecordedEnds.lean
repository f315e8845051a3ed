import Dipper.Registry.BatchRefinement

/-! The end a row records, under every statement that writes the row.  An end that comes with its
transaction is kept or replaced as a whole; one recorded before its transaction was known is kept
whole as long as the write that brings a transaction replaces it. -/

namespace Dipper

abbrev EndColumns : Type := Option Int × Option String × Option String

def AgreementRow.endColumns (row : AgreementRow) : EndColumns :=
  (row.canceledAt, row.canceledBy, row.canceledTx)

/-- A statement that writes one row, or the reconciliation of it, with its time. -/
inductive RowWrite : Type
  | update (now : Nat) (u : RowUpdate)
  | reconcile (now : Nat) (item : ReconciliationItem)
  deriving DecidableEq, Repr

namespace RowWrite

def apply (row : AgreementRow) : RowWrite → AgreementRow
  | .update now u => (u.run now row).getD row
  | .reconcile now item => Agreements.reconcileRow now item row

def correction (row : AgreementRow) : RowWrite → Option EndCorrection
  | .update now u => (u.run now row).bind fun row' => (u.returning row row').correction
  | .reconcile .. => none

def passes : RowWrite → Option EndColumns
  | .update _ (.recordCancelAudit canceledAt canceledBy canceledTx)
  | .update _ (.recordAcceptAndCancelAudit _ _ canceledAt canceledBy canceledTx) =>
    some (some (asI64 canceledAt), some canceledBy, canceledTx)
  | .reconcile _ item =>
    item.cancel.map fun _ =>
      (item.audit.canceledAt.map asI64, item.audit.canceledBy, item.audit.canceledTx)
  | _ => none

/-- A transaction that comes to an end recorded without one comes with an end that is not before
the accept. -/
def BringsEnd (row : AgreementRow) (acceptedAt : Option Int) (canceledAt : Int)
    (canceledTx : Option String) : Prop :=
  row.canceledAt.isSome = true → row.canceledTx = none → canceledTx.isSome = true →
    ∃ accepted ∈ acceptedAt, accepted ≤ canceledAt

/-- The write does not mix its end with the one on record: a record brings a transaction with an
end that stands, and a reconciliation has all of its end, or none. -/
def Unmixed (row : AgreementRow) : RowWrite → Prop
  | .update _ (.recordCancelAudit canceledAt _ canceledTx) =>
    BringsEnd row row.acceptedAt (asI64 canceledAt) canceledTx
  | .update _ (.recordAcceptAndCancelAudit acceptedAt _ canceledAt _ canceledTx) =>
    BringsEnd row (row.acceptedAt.or (some (asI64 acceptedAt))) (asI64 canceledAt) canceledTx
  | .reconcile _ item =>
    (item.audit.canceledAt.isSome = true ∧ item.audit.canceledBy.isSome = true ∧
      item.audit.canceledTx.isSome = true) ∨
    (item.audit.canceledAt = none ∧ item.audit.canceledBy = none ∧ item.audit.canceledTx = none)
  | _ => True

end RowWrite

def AgreementRow.written (row : AgreementRow) : List RowWrite → AgreementRow
  | [] => row
  | write :: writes => (write.apply row).written writes

/-- None of the writes mixes its end with the one on record when it is made. -/
def AgreementRow.Unmixed (row : AgreementRow) : List RowWrite → Prop
  | [] => True
  | write :: writes => write.Unmixed row ∧ (write.apply row).Unmixed writes

variable {row row' : AgreementRow} {now : Nat} {u : RowUpdate}

/-- The end of a row is none, or one that was passed as a whole. -/
def AgreementRow.EndFrom (passed : EndColumns → Prop) (row : AgreementRow) : Prop :=
  row.endColumns = (none, none, none) ∨
    (row.canceledAt.isSome = true ∧ row.canceledBy.isSome = true ∧ passed row.endColumns)

theorem Agreements.endColumns_reconcileRow (now : Nat) (item : ReconciliationItem)
    (row : AgreementRow) : (reconcileRow now item row).endColumns =
      if (transition now item.applyAccept item.cancel row).2.didCancel then
        ((item.audit.canceledAt.map asI64).or row.canceledAt,
          item.audit.canceledBy.or row.canceledBy, item.audit.canceledTx.or row.canceledTx)
      else row.endColumns := by
  unfold reconcileRow AgreementRow.endColumns
  rw [persistAudit_eq]
  rcases transition_cases now item.applyAccept item.cancel row with h | ⟨-, -, -, h⟩ |
    ⟨kind, -, -, h⟩ | ⟨kind, -, -, -, h⟩ <;> rw [h] <;> rfl

def RowUpdate.writesEnd : RowUpdate → Bool
  | .reopenCancel _ | .recordCancelAudit .. | .recordAcceptAndCancelAudit .. => true
  | _ => false

theorem RowUpdate.keeps_end (hNot : u.writesEnd = false) (h : u.run now row = some row') :
    row'.endColumns = row.endColumns ∧
      (row.terminatedEventEmittedAt.isSome = true →
        row'.terminatedEventEmittedAt.isSome = true) := by
  cases u with
  | reopenCancel _ | recordCancelAudit _ _ _ | recordAcceptAndCancelAudit _ _ _ _ _ => cases hNot
  | markAsUnresponsive | markAsCanceledByRequester | markAsAbandonedByIndexer
  | markAsCancelling | markAsExpired =>
    obtain ⟨-, rfl⟩ := setStatusFrom_eq_some.mp h
    exact ⟨rfl, id⟩
  | markAsAbandoning | markAsRejected reason =>
    obtain ⟨moved, hMoved, rfl⟩ := Option.map_eq_some_iff.mp h
    obtain ⟨-, rfl⟩ := setStatusFrom_eq_some.mp hMoved
    exact ⟨rfl, id⟩
  | updateOfferTxHash txHash | recordCancelCheck failedAttempts ended =>
    obtain ⟨-, hEq⟩ := Option.ite_none_right_eq_some.mp h
    obtain rfl := Option.some.inj hEq
    exact ⟨rfl, id⟩
  | markTerminatedEventEmitted =>
    obtain rfl := Option.some.inj h
    exact ⟨rfl, fun _ => rfl⟩
  | markAcceptedEventEmitted | markExpiredEventEmitted | recordAcceptedAudit acceptedAt acceptedTx
  | markReplacementQueued =>
    obtain rfl := Option.some.inj h
    exact ⟨rfl, id⟩

namespace AgreementRow.EndFrom

variable {passed passed' : EndColumns → Prop}

theorem of_eq (h : row.EndFrom passed) (hEnd : row'.endColumns = row.endColumns) :
    row'.EndFrom passed := by
  obtain ⟨hAt, hRest⟩ := Prod.mk.inj hEnd
  obtain ⟨hBy, -⟩ := Prod.mk.inj hRest
  unfold EndFrom
  rw [hEnd, hAt, hBy]
  exact h

theorem writeEnd (h : row.EndFrom passed) {accepted : Option Int} {canceledAt : Int}
    {canceledBy : String} {canceledTx : Option String}
    (hPassed : passed (some canceledAt, some canceledBy, canceledTx))
    (hBrings : RowWrite.BringsEnd row accepted canceledAt canceledTx) :
    (row.writeEnd (replaceEnd row accepted canceledAt canceledTx) canceledAt canceledBy
      canceledTx).EndFrom passed := by
  have hWhole : ∀ row'' : AgreementRow,
      row''.endColumns = (some canceledAt, some canceledBy, canceledTx) →
      row''.EndFrom passed := by
    intro row'' hEnd
    obtain ⟨hAt, hRest⟩ := Prod.mk.inj hEnd
    refine .inr ⟨by rw [hAt]; rfl, by rw [(Prod.mk.inj hRest).1]; rfl, ?_⟩
    rw [hEnd]
    exact hPassed
  unfold AgreementRow.writeEnd
  split
  · exact hWhole _ rfl
  · rename_i hKept
    rcases h with hNone | ⟨hAt, hBy, hOld⟩
    · obtain ⟨hAt, hRest⟩ := Prod.mk.inj hNone
      obtain ⟨hBy, hTx⟩ := Prod.mk.inj hRest
      apply hWhole
      simp only [AgreementRow.endColumns, hAt, hBy, hTx, Option.none_or]
    · have hTx : row.canceledTx.or canceledTx = row.canceledTx := by
        cases hRowTx : row.canceledTx with
        | some tx => rfl
        | none =>
          cases hNew : canceledTx with
          | none => rfl
          | some tx =>
            -- A transaction that comes to an end without one replaces it.
            obtain ⟨at', hMem, hLe⟩ := hBrings hAt hRowTx (by rw [hNew]; rfl)
            obtain rfl := Option.mem_def.mp hMem
            exact absurd (by simp [replaceEnd, hLe, hRowTx, hNew]) hKept
      refine of_eq (.inr ⟨hAt, hBy, hOld⟩) ?_
      simp only [AgreementRow.endColumns, hTx, Option.or_of_isSome hAt, Option.or_of_isSome hBy]

theorem reconcile (h : row.EndFrom passed) {item : ReconciliationItem}
    (hPassed : ∀ e ∈ (RowWrite.reconcile now item).passes, passed e)
    (hUnmixed : (RowWrite.reconcile now item).Unmixed row) :
    (Agreements.reconcileRow now item row).EndFrom passed := by
  by_cases hCancel : (Agreements.transition now item.applyAccept item.cancel row).2.didCancel = true
  · obtain ⟨kind, hKind⟩ : ∃ kind, item.cancel = some kind := by
      cases hKind : item.cancel with
      | none =>
        rw [hKind] at hCancel
        cases hCancel
      | some kind => exact ⟨kind, rfl⟩
    have hEnd := Agreements.endColumns_reconcileRow now item row
    rw [if_pos hCancel] at hEnd
    rcases hUnmixed with ⟨hAt, hBy, hTx⟩ | ⟨hAt, hBy, hTx⟩
    · have hAt' : (item.audit.canceledAt.map asI64).isSome = true := by
        rw [Option.isSome_map]
        exact hAt
      rw [Option.or_of_isSome hAt', Option.or_of_isSome hBy, Option.or_of_isSome hTx] at hEnd
      obtain ⟨hColumnAt, hRest⟩ := Prod.mk.inj hEnd
      refine .inr ⟨by rw [hColumnAt]; exact hAt', by rw [(Prod.mk.inj hRest).1]; exact hBy, ?_⟩
      rw [hEnd]
      apply hPassed
      simp [RowWrite.passes, hKind]
    · refine h.of_eq (hEnd.trans ?_)
      rw [hAt, hBy, hTx]
      rfl
  · refine h.of_eq ((Agreements.endColumns_reconcileRow now item row).trans ?_)
    rw [if_neg hCancel]

end AgreementRow.EndFrom

/-- A write keeps the end a row records, clears it, or sets it as it is passed. -/
theorem AgreementRow.EndFrom.write {passed : EndColumns → Prop} (h : row.EndFrom passed)
    {write : RowWrite} (hPassed : ∀ e ∈ write.passes, passed e) (hUnmixed : write.Unmixed row) :
    (write.apply row).EndFrom passed := by
  cases write with
  | reconcile now item => exact h.reconcile hPassed hUnmixed
  | update now u =>
    change ((u.run now row).getD row).EndFrom passed
    cases hRun : u.run now row with
    | none => exact h
    | some row' =>
      change row'.EndFrom passed
      by_cases hWrites : u.writesEnd = true
      · cases u with
        | reopenCancel seenLive =>
          obtain ⟨moved, hMoved, rfl⟩ := Option.map_eq_some_iff.mp hRun
          obtain ⟨-, rfl⟩ := setStatusFrom_eq_some.mp hMoved
          cases seenLive with
          | true => exact .inl rfl
          | false => exact h.of_eq rfl
        | recordCancelAudit canceledAt canceledBy canceledTx =>
          obtain rfl := Option.some.inj hRun
          exact h.writeEnd (hPassed _ rfl) hUnmixed
        | recordAcceptAndCancelAudit acceptedAt acceptedTx canceledAt canceledBy canceledTx =>
          obtain rfl := Option.some.inj hRun
          exact (h.writeEnd (hPassed _ rfl) hUnmixed).of_eq rfl
        | _ => cases hWrites
      · exact h.of_eq (RowUpdate.keeps_end (Bool.eq_false_iff.mpr hWrites) hRun).1

/-- The end after writes that mix none, by induction on the writes. -/
theorem AgreementRow.EndFrom.written {passed : EndColumns → Prop} (h : row.EndFrom passed)
    {writes : List RowWrite} (hPassed : ∀ write ∈ writes, ∀ e ∈ write.passes, passed e)
    (hUnmixed : row.Unmixed writes) : (row.written writes).EndFrom passed := by
  induction writes generalizing row with
  | nil => exact h
  | cons write writes ih =>
    have hFirst := h.write (hPassed write (by simp)) hUnmixed.1
    exact ih hFirst (fun write' hMem => hPassed write' (by simp [hMem])) hUnmixed.2

theorem RowWrite.correction_eq_some {write : RowWrite} {c : EndCorrection} :
    write.correction row = some c ↔
      row.terminatedEventEmittedAt.isSome = true ∧
      (write.apply row).terminatedEventEmittedAt = none ∧
      c = ⟨row.recordedEnd, (write.apply row).recordedEnd⟩ := by
  have hReturned : ∀ row' : AgreementRow, endCorrection row row' = some c ↔
      row.terminatedEventEmittedAt.isSome = true ∧ row'.terminatedEventEmittedAt = none ∧
        c = ⟨row.recordedEnd, row'.recordedEnd⟩ := by
    intro row'
    unfold endCorrection
    rw [Option.ite_none_right_eq_some, Bool.and_eq_true, Option.isNone_iff_eq_none, and_assoc,
      Option.some.injEq, eq_comm (a := c)]
  have hKept : ∀ {row' : AgreementRow}, (row.terminatedEventEmittedAt.isSome = true →
      row'.terminatedEventEmittedAt.isSome = true) → ((none : Option EndCorrection) = some c ↔
      row.terminatedEventEmittedAt.isSome = true ∧ row'.terminatedEventEmittedAt = none ∧
        c = ⟨row.recordedEnd, row'.recordedEnd⟩) := by
    intro row' hStays
    constructor
    · exact nofun
    · rintro ⟨hSome, hNone, -⟩
      have hStill := hStays hSome
      rw [hNone] at hStill
      cases hStill
  cases write with
  | reconcile now item =>
    refine hKept fun hSome => ?_
    change (Agreements.reconcileRow now item row).terminatedEventEmittedAt.isSome = true
    rw [(Agreements.reconcileRow_stamps now item row).2]
    exact hSome
  | update now u =>
    change (u.run now row).bind _ = some c ↔ _ ∧ ((u.run now row).getD row).terminatedEventEmittedAt
      = none ∧ c = ⟨_, ((u.run now row).getD row).recordedEnd⟩
    cases hRun : u.run now row with
    | none => exact hKept id
    | some row' =>
      by_cases hWrites : u.writesEnd = true
      · cases u with
        | reopenCancel _ | recordCancelAudit _ _ _ | recordAcceptAndCancelAudit _ _ _ _ _ =>
          exact hReturned row'
        | _ => cases hWrites
      · have hNot := Bool.eq_false_iff.mpr hWrites
        have hNone : (u.returning row row').correction = none := by
          cases u <;> first | rfl | cases hNot
        change (u.returning row row').correction = some c ↔ _
        rw [hNone]
        exact hKept (RowUpdate.keeps_end hNot hRun).2

/-- In every run of writes that mix no end with one on record, from a row with none, the row has no
end or one that a single write passed; and a write returns a correction exactly where it clears an
announcement, with the ends before and after it. -/
theorem recorded_end_whole {writes : List RowWrite} (hStart : row.endColumns = (none, none, none))
    (hUnmixed : row.Unmixed writes) :
    ((row.written writes).endColumns = (none, none, none) ∨
      ∃ write ∈ writes, write.passes = some (row.written writes).endColumns) ∧
    ∀ (row' : AgreementRow) (write : RowWrite) (c : EndCorrection),
      write.correction row' = some c ↔
        row'.terminatedEventEmittedAt.isSome = true ∧
        (write.apply row').terminatedEventEmittedAt = none ∧
        c = ⟨row'.recordedEnd, (write.apply row').recordedEnd⟩ := by
  have hFrom : row.EndFrom fun e => ∃ write ∈ writes, write.passes = some e := .inl hStart
  have hEnd := hFrom.written (fun write hMem e he => ⟨write, hMem, he⟩) hUnmixed
  exact ⟨hEnd.imp_right fun h => h.2.2, fun row' write c => RowWrite.correction_eq_some⟩

/-- An end recorded without its transaction, announced, and replaced by the one the chain shows. -/
def correctedEnd : List RowWrite :=
  [.update 1 (.recordAcceptedAudit 3 "0xaa"), .update 2 (.recordCancelAudit 5 "0x01" none),
    .update 3 .markTerminatedEventEmitted, .update 4 (.recordCancelAudit 7 "0x02" (some "0xcc"))]

theorem corrected_end_whole :
    (Agreements.openRow.written correctedEnd).endColumns = (some 7, some "0x02", some "0xcc") ∧
    ∃ write ∈ correctedEnd,
      write.passes = some (Agreements.openRow.written correctedEnd).endColumns := by
  have hEnd : (Agreements.openRow.written correctedEnd).endColumns =
      (some 7, some "0x02", some "0xcc") := by decide +kernel
  have hUnmixed : Agreements.openRow.Unmixed correctedEnd := by
    refine ⟨trivial, ?_, trivial, ?_, trivial⟩
    · intro _ _ hTx
      cases hTx
    · intro _ _ _
      exact ⟨3, by decide +kernel, by decide +kernel⟩
  refine ⟨hEnd, (recorded_end_whole rfl hUnmixed).1.resolve_left ?_⟩
  rw [hEnd]
  exact nofun

/-- Without an accept on record, the transaction of a second end is stored with the time and the
account of the first. -/
theorem recorded_end_mixed :
    Agreements.openRow.endColumns = (none, none, none) ∧
    ∃ writes : List RowWrite,
      ¬ ((Agreements.openRow.written writes).endColumns = (none, none, none) ∨
        ∃ write ∈ writes,
          write.passes = some (Agreements.openRow.written writes).endColumns) := by
  refine ⟨rfl, [.update 1 (.recordCancelAudit 5 "0x01" none),
    .update 2 (.recordCancelAudit 7 "0x02" (some "0xcc"))], ?_⟩
  decide +kernel

end Dipper
