import Mathlib.Algebra.GroupWithZero.Nat
import Mathlib.Algebra.Ring.Int.Defs
import Mathlib.Data.Int.Init
import Mathlib.Data.Nat.Notation

/-! The agreement row of the registry and the statements that write one row.  A statement is one
`UPDATE … WHERE id = $1 AND …`: it gives the row it leaves, or nothing when its filter does not
match.  Times of the database and of dipper are seconds of one clock. -/

namespace Dipper

/-- The first 16 bytes of a hash, ordered as bytes are. -/
abbrev IndexingAgreementId : Type := Fin (2 ^ 128)

abbrev IndexingRequestId : Type := Fin (2 ^ 128)

/-- An address of 20 bytes. -/
abbrev Address : Type := Fin (2 ^ 160)

instance IndexingAgreementId.neZero : NeZero (2 ^ 128) := ⟨by decide⟩

instance Address.neZero : NeZero (2 ^ 160) := ⟨by decide⟩

instance IndexingAgreementId.lawfulBEq : LawfulBEq IndexingAgreementId := inferInstance

instance Address.lawfulBEq : LawfulBEq Address := inferInstance

/-- The lower-case hex digits of `n`, padded to `width`. -/
def hexDigits (width n : Nat) : List Char :=
  let digits := Nat.toDigits 16 n
  List.replicate (width - digits.length) '0' ++ digits

/-- The text of an address, without the letter case of its checksum. -/
def Address.text (a : Address) : String := String.ofList ('0' :: 'x' :: hexDigits 40 a.val)

def IndexingAgreementId.text (id : IndexingAgreementId) : String :=
  String.ofList ('0' :: 'x' :: hexDigits 32 id.val)

abbrev IndexerId : Type := Address

abbrev DeploymentId : Type := String

/-- A transaction hash, as the hex text it is displayed as. -/
abbrev TxHash : Type := String

/-- The statuses of an agreement.  `Unknown`, the source's fallback for a number it does not know,
is never written and so has no value here. -/
inductive IndexingAgreementStatus : Type
  | created
  | unresponsive
  | canceledByRequester
  | canceledByIndexer
  | expired
  | acceptedOnChain
  | rejected
  | abandonedByIndexer
  | cancelling
  deriving DecidableEq, Repr

instance IndexingAgreementStatus.lawfulBEq : LawfulBEq IndexingAgreementStatus := inferInstance

structure Terms where
  payer : Address
  /-- Deadline for the acceptance on-chain, in chain seconds. -/
  deadline : Nat
  endsAt : Nat
  subgraphDeploymentId : DeploymentId
  protocolNetwork : Nat
  proposedAt : Nat
  deriving DecidableEq, Repr

/-- A row of `dipper_reg_indexing_agreements` without its primary key, under which the table keeps
it.  The chain seconds of the audit columns are stored as `BIGINT`. -/
structure AgreementRow where
  indexingRequestId : IndexingRequestId
  deploymentId : DeploymentId
  indexerId : IndexerId
  terms : Terms
  termsVersionHash : Option (List UInt8)
  status : IndexingAgreementStatus := .created
  createdAt : Nat
  updatedAt : Nat
  rejectionReason : Option String := none
  offerTxHash : Option TxHash := none
  cancelAttempts : Nat := 0
  cancelCheckedAt : Option Nat := none
  endedSeenAt : Option Nat := none
  abandoned : Bool := false
  replacementPending : Bool := false
  acceptedAt : Option Int := none
  acceptedTx : Option String := none
  canceledAt : Option Int := none
  canceledBy : Option String := none
  canceledTx : Option String := none
  acceptedEventEmittedAt : Option Nat := none
  terminatedEventEmittedAt : Option Nat := none
  expiredEventEmittedAt : Option Nat := none
  deriving DecidableEq, Repr

/-- `n as i64` for a `u64`. -/
def asI64 (n : Nat) : Int := (n : Int).bmod (2 ^ 64)

theorem asI64_le (n : Nat) : asI64 n ≤ n := by
  unfold asI64
  have hMod := Int.emod_nonneg (n : Int) (show ((2 ^ 64 : Nat) : Int) ≠ 0 by decide)
  rw [Int.bmod_def]
  split <;> omega

/-- `z as u64` for an `i64`. -/
def asU64 (z : Int) : Nat := (z % 2 ^ 64).toNat

/-- An agreement's end as recorded. -/
structure RecordedEnd where
  canceledAt : Option Nat
  canceledBy : Option String
  canceledTx : Option String
  deriving DecidableEq, Repr

/-- An announced end that a write replaced or cleared. -/
structure EndCorrection where
  old : RecordedEnd
  new : RecordedEnd
  deriving DecidableEq, Repr

/-- The end a row records.  A negative time does not convert to `u64` and is dropped. -/
def AgreementRow.recordedEnd (row : AgreementRow) : RecordedEnd where
  canceledAt := row.canceledAt.bind fun at' => if 0 ≤ at' then some at'.toNat else none
  canceledBy := row.canceledBy
  canceledTx := row.canceledTx

/-- What a write that can replace an end returns: the correction, if it cleared the announcement
of the end before it. -/
def endCorrection (before after : AgreementRow) : Option EndCorrection :=
  if before.terminatedEventEmittedAt.isSome && after.terminatedEventEmittedAt.isNone then
    some ⟨before.recordedEnd, after.recordedEnd⟩
  else none

/-- Statuses an on-chain cancel by dipper ends. -/
def cancelByRequesterFrom : List IndexingAgreementStatus :=
  [.created, .acceptedOnChain, .rejected, .cancelling]

/-- Statuses an on-chain cancel by the indexer ends. -/
def cancelByIndexerFrom : List IndexingAgreementStatus := [.acceptedOnChain, .cancelling]

/-- Statuses an accept seen on-chain moves on. -/
def acceptFrom : List IndexingAgreementStatus := [.created, .expired]

/-- Statuses that may be live on-chain and can be marked cancelling. -/
def cancellingFrom : List IndexingAgreementStatus :=
  [.created, .acceptedOnChain, .rejected, .expired]

def AgreementRow.moved (row : AgreementRow) (now : Nat) (newStatus : IndexingAgreementStatus) :
    AgreementRow :=
  { row with status := newStatus, updatedAt := now }

/-- Move a row whose status is in `allowedFrom` to `newStatus`. -/
def setStatusFrom (now : Nat) (newStatus : IndexingAgreementStatus)
    (allowedFrom : List IndexingAgreementStatus) (row : AgreementRow) : Option AgreementRow :=
  if row.status ∈ allowedFrom then some (row.moved now newStatus) else none

/-- The rule by which a new end replaces the end on record: it is not before the accept, and the
one on record is before the accept or has no transaction while the new one has.  A comparison
with `NULL` does not hold. -/
def replaceEnd (row : AgreementRow) (acceptedAt : Option Int) (canceledAt : Int)
    (canceledTx : Option String) : Bool :=
  acceptedAt.any (fun accepted => decide (accepted ≤ canceledAt)) &&
    (row.canceledAt.any (fun old => acceptedAt.any fun accepted => decide (old < accepted)) ||
      (row.canceledTx.isNone && canceledTx.isSome))

/-- Write an end under `replaceEnd`: replace the end on record whole and clear its announcement,
or fill the columns that are null. -/
def AgreementRow.writeEnd (row : AgreementRow) (replace : Bool) (canceledAt : Int)
    (canceledBy : String) (canceledTx : Option String) : AgreementRow :=
  if replace then
    { row with
      canceledAt := some canceledAt
      canceledBy := some canceledBy
      canceledTx := canceledTx
      terminatedEventEmittedAt := none }
  else
    { row with
      canceledAt := row.canceledAt.or (some canceledAt)
      canceledBy := row.canceledBy.or (some canceledBy)
      canceledTx := row.canceledTx.or canceledTx }

/-- The statements that write one agreement row, under the names of the registry's functions. -/
inductive RowUpdate : Type
  | markAsUnresponsive
  | updateOfferTxHash (txHash : TxHash)
  | markAsCanceledByRequester
  | markAsAbandonedByIndexer
  | markAsCancelling
  | markAsAbandoning
  | reopenCancel (seenLive : Bool)
  | recordCancelCheck (failedAttempts : Nat) (ended : Option Bool)
  | markTerminatedEventEmitted
  | markAcceptedEventEmitted
  | markExpiredEventEmitted
  | recordAcceptedAudit (acceptedAt : Nat) (acceptedTx : String)
  | recordCancelAudit (canceledAt : Nat) (canceledBy : String) (canceledTx : Option String)
  | recordAcceptAndCancelAudit (acceptedAt : Nat) (acceptedTx : String) (canceledAt : Nat)
      (canceledBy : String) (canceledTx : Option String)
  | markAsExpired
  | markAsRejected (reason : Option String)
  | markReplacementQueued
  deriving DecidableEq, Repr

/-- The row a statement leaves, run at time `now`, or nothing when its filter does not match. -/
def RowUpdate.run (now : Nat) (row : AgreementRow) : RowUpdate → Option AgreementRow
  | .markAsUnresponsive => setStatusFrom now .unresponsive [.created] row
  | .updateOfferTxHash txHash =>
    if row.status ∈ [.created, .acceptedOnChain, .cancelling] then
      some { row with
        offerTxHash := some txHash
        -- A cancelling row keeps the time it was marked, which paces its cancel retry.
        updatedAt := if row.status = .cancelling then row.updatedAt else now }
    else none
  | .markAsCanceledByRequester => setStatusFrom now .canceledByRequester cancelByRequesterFrom row
  | .markAsAbandonedByIndexer => setStatusFrom now .abandonedByIndexer [.cancelling] row
  | .markAsCancelling => setStatusFrom now .cancelling cancellingFrom row
  | .markAsAbandoning =>
    (setStatusFrom now .cancelling [.acceptedOnChain] row).map fun row =>
      { row with abandoned := true, replacementPending := true }
  | .reopenCancel seenLive =>
    (setStatusFrom now .cancelling [.canceledByRequester, .rejected] row).map fun row =>
      { row with
        cancelAttempts := 0
        cancelCheckedAt := some now
        endedSeenAt := none
        canceledAt := if seenLive then none else row.canceledAt
        canceledBy := if seenLive then none else row.canceledBy
        canceledTx := if seenLive then none else row.canceledTx
        terminatedEventEmittedAt := if seenLive then none else row.terminatedEventEmittedAt }
  | .recordCancelCheck failedAttempts ended =>
    if row.status = .cancelling then
      some { row with
        cancelAttempts := min (row.cancelAttempts + failedAttempts) 2147483647
        cancelCheckedAt := some now
        endedSeenAt := match ended with
          | none => row.endedSeenAt
          | some true => row.endedSeenAt.or (some now)
          | some false => none }
    else none
  | .markTerminatedEventEmitted => some { row with terminatedEventEmittedAt := some now }
  | .markAcceptedEventEmitted => some { row with acceptedEventEmittedAt := some now }
  | .markExpiredEventEmitted => some { row with expiredEventEmittedAt := some now }
  | .recordAcceptedAudit acceptedAt acceptedTx =>
    some { row with
      acceptedAt := row.acceptedAt.or (some (asI64 acceptedAt))
      acceptedTx := row.acceptedTx.or (some acceptedTx) }
  | .recordCancelAudit canceledAt canceledBy canceledTx =>
    let replace := replaceEnd row row.acceptedAt (asI64 canceledAt) canceledTx
    some (row.writeEnd replace (asI64 canceledAt) canceledBy canceledTx)
  | .recordAcceptAndCancelAudit acceptedAt acceptedTx canceledAt canceledBy canceledTx =>
    -- The end is judged against the accept on record, or the one recorded with it.
    let accepted := row.acceptedAt.or (some (asI64 acceptedAt))
    let replace := replaceEnd row accepted (asI64 canceledAt) canceledTx
    some { row.writeEnd replace (asI64 canceledAt) canceledBy canceledTx with
      acceptedAt := accepted
      acceptedTx := row.acceptedTx.or (some acceptedTx) }
  | .markAsExpired => setStatusFrom now .expired [.created] row
  | .markAsRejected reason =>
    (setStatusFrom now .rejected [.created] row).map fun row =>
      { row with rejectionReason := reason }
  | .markReplacementQueued => some { row with replacementPending := false }

/-- Whether a statement that matched no row is an error.  The stamps, the audits and the
replacement note return `Ok` all the same. -/
def RowUpdate.needsRow : RowUpdate → Bool
  | .markTerminatedEventEmitted | .markAcceptedEventEmitted | .markExpiredEventEmitted
  | .recordAcceptedAudit .. | .recordCancelAudit .. | .recordAcceptAndCancelAudit ..
  | .markReplacementQueued => false
  | _ => true

/-- What the statements return besides `Ok`: the announced end they replaced, and the number of
failed cancels. -/
structure Updated where
  correction : Option EndCorrection := none
  cancelAttempts : Nat := 0
  deriving DecidableEq, Repr

def RowUpdate.returning (before after : AgreementRow) : RowUpdate → Updated
  | .reopenCancel _ | .recordCancelAudit .. | .recordAcceptAndCancelAudit .. =>
    ⟨endCorrection before after, 0⟩
  | .recordCancelCheck .. => ⟨none, after.cancelAttempts⟩
  | _ => {}

end Dipper
