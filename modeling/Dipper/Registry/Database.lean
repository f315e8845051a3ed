import Dipper.Listing
import Dipper.Registry.Row
import Mathlib.Data.Int.Order.Basic
import Mathlib.Data.List.AList
import Mathlib.Data.Prod.Lex

/-! The tables of the registry that agreements go through: the agreements, the pending
cancellations, the indexing requests and the chain listener's state, with the transaction that
applies a page of reconciliations and the queries that list agreements. -/

namespace Dipper

inductive RegistryError : Type
  | noRecordsUpdated
  /-- The statement failed, or its answer was lost. -/
  | backend
  deriving DecidableEq, Repr

inductive CancelKind : Type
  | byRequester
  | byIndexer
  deriving DecidableEq, Repr

structure ReconciliationOutcome where
  didAccept : Bool := false
  didCancel : Bool := false
  deriving DecidableEq, Repr

/-- What the chain shows of a transition, stored with it for the event to come. -/
structure ReconciliationAudit where
  acceptedAt : Option Nat := none
  acceptedTx : Option String := none
  canceledAt : Option Nat := none
  canceledBy : Option String := none
  canceledTx : Option String := none
  deriving DecidableEq, Repr

structure ReconciliationItem where
  agreementId : IndexingAgreementId
  applyAccept : Bool
  cancel : Option CancelKind
  audit : ReconciliationAudit
  deriving DecidableEq, Repr

/-- An agreement as the registry's queries return it. -/
structure IndexingAgreement where
  id : IndexingAgreementId
  status : IndexingAgreementStatus
  indexingRequestId : IndexingRequestId
  indexerId : IndexerId
  deploymentId : DeploymentId
  terms : Terms
  termsVersionHash : Option (List UInt8)
  deriving DecidableEq, Repr

def AgreementRow.agreement (id : IndexingAgreementId) (row : AgreementRow) :
    IndexingAgreement where
  id := id
  status := row.status
  indexingRequestId := row.indexingRequestId
  indexerId := row.indexerId
  deploymentId := row.deploymentId
  terms := row.terms
  termsVersionHash := row.termsVersionHash

structure NewAgreementParams where
  agreementId : IndexingAgreementId
  requestId : IndexingRequestId
  deploymentId : DeploymentId
  indexerId : IndexerId
  terms : Terms
  termsVersionHash : Option (List UInt8)
  deriving DecidableEq, Repr

def NewAgreementParams.row (params : NewAgreementParams) (now : Nat) : AgreementRow where
  indexingRequestId := params.requestId
  deploymentId := params.deploymentId
  indexerId := params.indexerId
  terms := params.terms
  termsVersionHash := params.termsVersionHash
  createdAt := now
  updatedAt := now

/-- The table of agreements, by primary key. -/
abbrev Agreements : Type := AList fun _ : IndexingAgreementId => AgreementRow

theorem lookup_insert_eq_ite {κ α : Type} [DecidableEq κ] (t : AList fun _ : κ => α) {k k' : κ}
    (a : α) : (t.insert k a).lookup k' = if k' = k then some a else t.lookup k' := by
  by_cases h : k' = k
  · subst h
    simp
  · rw [if_neg h, AList.lookup_insert_ne h]

namespace Agreements

def updateRow (t : Agreements) (id : IndexingAgreementId)
    (f : AgreementRow → Option AgreementRow) : Option Agreements :=
  ((t.lookup id).bind f).map (t.insert id)

/-- Run a statement on each row of `ids`, returning the ids of the rows it matched. -/
def updateRows (f : AgreementRow → Option AgreementRow) (t : Agreements) :
    List IndexingAgreementId → Agreements × List IndexingAgreementId
  | [] => (t, [])
  | id :: ids =>
    match t.updateRow id f with
    | some t =>
      let (t, moved) := updateRows f t ids
      (t, id :: moved)
    | none => updateRows f t ids

/-- Set the status of each row of `ids` whose status is in `allowedFrom`, returning the ids of the
rows that moved. -/
def batchSetStatus (now : Nat) (t : Agreements) (ids : List IndexingAgreementId)
    (newStatus : AgreementRow → IndexingAgreementStatus)
    (allowedFrom : List IndexingAgreementStatus) : Agreements × List IndexingAgreementId :=
  t.updateRows (fun row => setStatusFrom now (newStatus row) allowedFrom row) ids

/-- Record a cancel by `kind`, seen on the chain, in each row it ends. -/
def batchApplyCancel (now : Nat) (t : Agreements) (ids : List IndexingAgreementId) :
    CancelKind → Agreements × List IndexingAgreementId
  -- The chain doesn't say why dipper cancelled: a row noted abandoned ends as such.
  | .byRequester => t.batchSetStatus now ids
      (fun row => if row.abandoned then .abandonedByIndexer else .canceledByRequester)
      cancelByRequesterFrom
  | .byIndexer => t.batchSetStatus now ids (fun _ => .canceledByIndexer) cancelByIndexerFrom

def updateStatusFrom (now : Nat) (t : Agreements) (id : IndexingAgreementId)
    (newStatus : IndexingAgreementStatus) (allowedFrom : List IndexingAgreementStatus) :
    Agreements × Bool :=
  let (t, moved) := t.batchSetStatus now [id] (fun _ => newStatus) allowedFrom
  (t, !moved.isEmpty)

def applyCancel (now : Nat) (t : Agreements) (id : IndexingAgreementId) (kind : CancelKind) :
    Agreements × Bool :=
  let (t, ended) := t.batchApplyCancel now [id] kind
  (t, !ended.isEmpty)

def acceptIf (now : Nat) (applyAccept : Bool) (t : Agreements) (id : IndexingAgreementId) :
    Agreements × Bool :=
  if applyAccept then t.updateStatusFrom now id .acceptedOnChain acceptFrom else (t, false)

/-- The accept and the cancel of one agreement in one transaction, which is rolled back when the
accept landed and the cancel did not. -/
def applyReconciliation (now : Nat) (t : Agreements) (id : IndexingAgreementId)
    (applyAccept : Bool) (cancel : Option CancelKind) :
    Except RegistryError (Agreements × ReconciliationOutcome) :=
  let (t, didAccept) := t.acceptIf now applyAccept id
  match cancel with
  | none => .ok (t, ⟨didAccept, false⟩)
  | some kind =>
    let (t, didCancel) := t.applyCancel now id kind
    if didAccept && !didCancel then .error .noRecordsUpdated
    else .ok (t, ⟨didAccept, didCancel⟩)

/-- `COALESCE` of the observed accept over the columns, unless nothing was observed. -/
def persistAcceptAudit (audit : ReconciliationAudit) (row : AgreementRow) : AgreementRow :=
  if audit.acceptedAt.isNone && audit.acceptedTx.isNone then row
  else { row with
    acceptedAt := (audit.acceptedAt.map asI64).or row.acceptedAt
    acceptedTx := audit.acceptedTx.or row.acceptedTx }

def persistCancelAudit (audit : ReconciliationAudit) (row : AgreementRow) : AgreementRow :=
  if audit.canceledAt.isNone && audit.canceledBy.isNone && audit.canceledTx.isNone then row
  else { row with
    canceledAt := (audit.canceledAt.map asI64).or row.canceledAt
    canceledBy := audit.canceledBy.or row.canceledBy
    canceledTx := audit.canceledTx.or row.canceledTx }

end Agreements

/-- The outcomes of a batch, by agreement. -/
abbrev Outcomes : Type := AList fun _ : IndexingAgreementId => ReconciliationOutcome

namespace Outcomes

/-- `outcomes.get(id).copied().unwrap_or_default()` -/
def get (outcomes : Outcomes) (id : IndexingAgreementId) : ReconciliationOutcome :=
  (outcomes.lookup id).getD {}

def setAccepted (outcomes : Outcomes) (ids : List IndexingAgreementId) : Outcomes :=
  ids.foldl (fun out id => out.insert id { Outcomes.get out id with didAccept := true }) outcomes

def setCanceled (outcomes : Outcomes) (ids : List IndexingAgreementId) : Outcomes :=
  ids.foldl (fun out id => out.insert id { Outcomes.get out id with didCancel := true }) outcomes

end Outcomes

namespace Agreements

/-- The items that both accept and cancel, each in turn. -/
def applyPaired (now : Nat) (t : Agreements) (outcomes : Outcomes) :
    List ReconciliationItem → Except RegistryError (Agreements × Outcomes)
  | [] => .ok (t, outcomes)
  | item :: items =>
    match item.cancel with
    | none => applyPaired now t outcomes items
    | some kind =>
      let (t, didAccept) := t.updateStatusFrom now item.agreementId .acceptedOnChain acceptFrom
      let (t, didCancel) := t.applyCancel now item.agreementId kind
      if didAccept && !didCancel then .error .noRecordsUpdated
      else applyPaired now t (outcomes.insert item.agreementId ⟨didAccept, didCancel⟩) items

/-- Store the observed payload of a row that moved. -/
def persistAudit (outcome : ReconciliationOutcome) (audit : ReconciliationAudit)
    (row : AgreementRow) : AgreementRow :=
  let row := if outcome.didAccept then persistAcceptAudit audit row else row
  if outcome.didCancel then persistCancelAudit audit row else row

def persistAudits (outcomes : Outcomes) (t : Agreements) : List ReconciliationItem → Agreements
  | [] => t
  | item :: items =>
    let outcome := Outcomes.get outcomes item.agreementId
    let stored := t.updateRow item.agreementId fun row =>
      some (persistAudit outcome item.audit row)
    persistAudits outcomes (stored.getD t) items

def idsOf (items : List ReconciliationItem) (p : ReconciliationItem → Bool) :
    List IndexingAgreementId :=
  (items.filter p).map (·.agreementId)

/-- A page of reconciliations in one transaction: the paired items one by one, then the rows that
only accept, those dipper cancelled and those the indexer cancelled, then the audits. -/
def applyReconciliationBatch (now : Nat) (t : Agreements) (items : List ReconciliationItem) :
    Except RegistryError (Agreements × Outcomes) := do
  let outcomes : Outcomes := items.foldl (fun out item => out.insert item.agreementId {}) ∅
  let (t, outcomes) ← t.applyPaired now outcomes
    (items.filter fun item => item.applyAccept && item.cancel.isSome)
  let (t, accepted) := t.batchSetStatus now
    (idsOf items fun item => item.applyAccept && item.cancel.isNone) (fun _ => .acceptedOnChain)
    acceptFrom
  let outcomes := Outcomes.setAccepted outcomes accepted
  let (t, ended) := t.batchApplyCancel now
    (idsOf items fun item => !item.applyAccept && item.cancel = some .byRequester) .byRequester
  let outcomes := Outcomes.setCanceled outcomes ended
  let (t, ended) := t.batchApplyCancel now
    (idsOf items fun item => !item.applyAccept && item.cancel = some .byIndexer) .byIndexer
  let outcomes := Outcomes.setCanceled outcomes ended
  pure (t.persistAudits outcomes items, outcomes)

end Agreements

inductive IndexingRequestStatus : Type
  | opened
  | canceled
  deriving DecidableEq, Repr

/-- A row of `dipper_reg_indexing_requests`, without its primary key. -/
structure IndexingRequest where
  status : IndexingRequestStatus
  deploymentId : DeploymentId
  deploymentChainId : Nat
  numCandidates : Nat
  shortfallActive : Bool := false
  deriving DecidableEq, Repr

abbrev Requests : Type := AList fun _ : IndexingRequestId => IndexingRequest

/-- How long a `terminated` event waits for the transaction that ended the agreement. -/
def terminatedTxWaitSecs : Nat := 60 * 60

def IndexingAgreementStatus.isTerminalCancel : IndexingAgreementStatus → Bool
  | .canceledByRequester | .canceledByIndexer | .abandonedByIndexer => true
  | _ => false

inductive AgreementQuery : Type
  | byId (id : IndexingAgreementId)
  | byIds (ids : List IndexingAgreementId)
  | activeOfRequest (request : IndexingRequestId)
  | holdingSlots (request : IndexingRequestId)
  | inFlight
  | acceptedOfDeployment (deployment : DeploymentId)
  | expiredCreated (batchSize : Nat) (chainTimestamp : Nat)
  | cancelling (batchSize maxAttempts minAgeMinutes : Nat)
  | pendingTerminatedEmission (limit : Nat)
  | pendingAcceptedEmission (limit : Nat)
  | pendingExpiredEmission (limit : Nat)
  | pendingChainCancel (batchSize : Nat)
  | acceptedOnChain
  | awaitingReplacement (batchSize : Nat)
  deriving DecidableEq, Repr

namespace AgreementQuery

/-- The `WHERE` clause, at time `now`. -/
def selects (now : Nat) (requests : Requests) (id : IndexingAgreementId) (row : AgreementRow) :
    AgreementQuery → Bool
  | .byId id' => id = id'
  | .byIds ids => id ∈ ids
  | .activeOfRequest request =>
    row.indexingRequestId = request &&
      (row.status = .created || row.status = .acceptedOnChain)
  | .holdingSlots request =>
    row.indexingRequestId = request && row.status = .cancelling && row.replacementPending &&
      row.endedSeenAt.isNone
  | .inFlight =>
    row.status = .created ||
      (row.status = .cancelling && row.acceptedAt.isNone && now < row.terms.deadline)
  | .acceptedOfDeployment deployment =>
    row.deploymentId = deployment && row.status = .acceptedOnChain
  | .expiredCreated _ chainTimestamp =>
    row.status = .created && (row.terms.deadline : Int) < asI64 chainTimestamp
  | .cancelling _ maxAttempts minAgeMinutes =>
    row.status = .cancelling &&
      (row.cancelAttempts < maxAttempts ||
        row.cancelCheckedAt.any fun checked => checked + 3600 < now) &&
      (row.cancelCheckedAt.isSome || row.updatedAt + 60 * minAgeMinutes < now)
  | .pendingTerminatedEmission _ =>
    row.status.isTerminalCancel && row.acceptedAt.isSome && row.terminatedEventEmittedAt.isNone &&
      (row.canceledTx.isSome || row.updatedAt + terminatedTxWaitSecs < now)
  | .pendingAcceptedEmission _ => row.acceptedAt.isSome && row.acceptedEventEmittedAt.isNone
  | .pendingExpiredEmission _ => row.status = .expired && row.expiredEventEmittedAt.isNone
  | .pendingChainCancel _ =>
    row.status = .acceptedOnChain &&
      (requests.lookup row.indexingRequestId).any fun request => request.status = .canceled
  | .acceptedOnChain => row.status = .acceptedOnChain
  | .awaitingReplacement _ => row.replacementPending && row.status ≠ .cancelling

/-- The `ORDER BY` key; a query without an order lists its rows in any. -/
def key (now : Nat) (row : AgreementRow) : AgreementQuery → ℤ ×ₗ ℤ
  | .expiredCreated .. => toLex (row.terms.deadline, 0)
  | .cancelling .. =>
    -- One that may be paying an indexer counts as checked an hour earlier.
    let checked : Int := (row.cancelCheckedAt.getD row.updatedAt : Nat)
    let head : Int := if row.acceptedAt.isSome || row.terms.deadline < now then 3600 else 0
    toLex (checked - head, (row.updatedAt : Int))
  | .pendingAcceptedEmission _ => toLex (row.acceptedAt.getD 0, 0)
  | .pendingTerminatedEmission _ | .pendingExpiredEmission _ | .pendingChainCancel _
  | .awaitingReplacement _ => toLex ((row.updatedAt : Int), 0)
  | _ => toLex (0, 0)

/-- The `LIMIT`; some queries take 0 for no limit. -/
def limit : AgreementQuery → Option Nat
  | .expiredCreated n _ | .pendingChainCancel n => if n > 0 then some n else none
  | .cancelling n _ _ | .pendingTerminatedEmission n | .pendingAcceptedEmission n
  | .pendingExpiredEmission n | .awaitingReplacement n => some n
  | _ => none

def matching (now : Nat) (requests : Requests) (t : Agreements) (q : AgreementQuery) :
    List IndexingAgreementId :=
  (t.entries.filter fun e => q.selects now requests e.1 e.2).map (·.1)

/-- `ids` is what the query may list.  The liveness check's query takes some of its rows only, by
a rule on their sync progress. -/
def Lists (now : Nat) (requests : Requests) (t : Agreements) (q : AgreementQuery)
    (ids : List IndexingAgreementId) : Prop :=
  match q with
  | .acceptedOnChain => ids.Nodup ∧ ∀ id ∈ ids, id ∈ q.matching now requests t
  | q => Listing.IsListing (fun id => ((t.lookup id).map (q.key now ·)).getD (toLex (0, 0)))
      q.limit (q.matching now requests t) ids

instance (now : Nat) (requests : Requests) (t : Agreements) (q : AgreementQuery)
    (ids : List IndexingAgreementId) : Decidable (q.Lists now requests t ids) := by
  unfold Lists
  split
  · -- Over the listed ids, not over all there are.
    exact @instDecidableAnd _ _ _ (List.decidableBAll _ _)
  · infer_instance

variable {now : Nat} {requests : Requests} {t : Agreements} {q : AgreementQuery}
  {ids : List IndexingAgreementId} {id : IndexingAgreementId}

theorem mem_matching : id ∈ q.matching now requests t ↔
    ∃ row, t.lookup id = some row ∧ q.selects now requests id row = true := by
  simp only [matching, List.mem_map, List.mem_filter]
  constructor
  · rintro ⟨⟨id', row⟩, ⟨hMem, hSelects⟩, rfl⟩
    exact ⟨row, AList.mem_lookup_iff.mpr hMem, hSelects⟩
  · rintro ⟨row, hRow, hSelects⟩
    exact ⟨⟨id, row⟩, ⟨AList.mem_lookup_iff.mp hRow, hSelects⟩, rfl⟩

theorem Lists.nodup (h : q.Lists now requests t ids) : ids.Nodup := by
  unfold Lists at h
  split at h
  · exact h.1
  · exact h.nodup

theorem Lists.selects (h : q.Lists now requests t ids) (hId : id ∈ ids) :
    ∃ row, t.lookup id = some row ∧ q.selects now requests id row = true := by
  refine mem_matching.mp ?_
  unfold Lists at h
  split at h
  · exact h.2 id hId
  · exact h.subset id hId

theorem Lists.complete (h : q.Lists now requests t ids) (hAll : q ≠ .acceptedOnChain)
    (hLimit : q.limit = none) (hId : id ∈ q.matching now requests t) : id ∈ ids := by
  unfold Lists at h
  split at h
  · exact absurd rfl hAll
  · refine Listing.IsListing.complete h (fun n hn => ?_) hId
    rw [hLimit] at hn
    cases hn

end AgreementQuery

end Dipper
