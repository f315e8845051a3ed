import Dipper.Registry.Batch
import Mathlib.Logic.Relation

/-! The state machine of an agreement: the changes of its status that the registry's statements
make, and what no statement changes back. -/

namespace Dipper

namespace IndexingAgreementStatus

def next : IndexingAgreementStatus → List IndexingAgreementStatus
  | .created =>
    [.unresponsive, .rejected, .expired, .acceptedOnChain, .cancelling, .canceledByRequester]
  | .expired => [.acceptedOnChain, .cancelling]
  | .rejected => [.cancelling, .canceledByRequester]
  | .acceptedOnChain => [.cancelling, .canceledByRequester, .canceledByIndexer]
  | .cancelling => [.canceledByRequester, .canceledByIndexer, .abandonedByIndexer]
  | .canceledByRequester => [.cancelling]
  | .unresponsive | .canceledByIndexer | .abandonedByIndexer => []

/-- A cancel has been started, or the agreement has been ended by one. -/
def ending : IndexingAgreementStatus → Bool
  | .cancelling | .canceledByRequester | .canceledByIndexer | .abandonedByIndexer => true
  | _ => false

/-- Rejected, or in the hands of a cancel. -/
def closed (s : IndexingAgreementStatus) : Bool := s = .rejected || s.ending

/-- Accepted, or in the hands of a cancel. -/
def taken (s : IndexingAgreementStatus) : Bool := s = .acceptedOnChain || s.ending

/-- On offer or accepted: in the request's current group. -/
def active : IndexingAgreementStatus → Bool
  | .created | .acceptedOnChain => true
  | _ => false

theorem retired_of_ending {s : IndexingAgreementStatus} (h : s.ending = true) :
    s.active = false ∧ s ≠ .expired := by
  revert h
  cases s <;> decide

theorem retired_of_notMem {s : IndexingAgreementStatus} (h : s ∉ cancellingFrom) :
    s.active = false ∧ s ≠ .expired := by
  revert h
  cases s <;> decide

end IndexingAgreementStatus

def StatusChange (s s' : IndexingAgreementStatus) : Prop := s' ∈ s.next

instance (s s' : IndexingAgreementStatus) : Decidable (StatusChange s s') :=
  inferInstanceAs (Decidable (s' ∈ s.next))

theorem StatusChange.open {s s' : IndexingAgreementStatus} (h : StatusChange s s')
    (hEnded : s'.isTerminalCancel = true) : s.isTerminalCancel = false := by
  revert h hEnded
  cases s <;> cases s' <;> decide

theorem StatusChange.ends {s s' : IndexingAgreementStatus} (h : StatusChange s s')
    (hCancelling : s = .cancelling) : s'.isTerminalCancel = true := by
  subst hCancelling
  revert h
  cases s' <;> decide

abbrev StatusPath : IndexingAgreementStatus → IndexingAgreementStatus → Prop :=
  Relation.ReflTransGen StatusChange

namespace StatusPath

variable {s s' : IndexingAgreementStatus}

theorem closed_under {p : IndexingAgreementStatus → Bool}
    (hp : ∀ s s', StatusChange s s' → p s = true → p s' = true) (h : StatusPath s s')
    (hs : p s = true) : p s' = true := by
  induction h with
  | refl => exact hs
  | tail _ hStep ih => exact hp _ _ hStep ih

theorem ending (h : StatusPath s s') (hs : s.ending = true) : s'.ending = true := by
  refine h.closed_under ?_ hs
  intro a b
  cases a <;> cases b <;> decide

theorem unresponsive (h : StatusPath s s') (hs : s = .unresponsive) : s' = .unresponsive := by
  have hp := h.closed_under (p := fun s => s = .unresponsive) (by
    intro a b
    cases a <;> cases b <;> decide) (by simpa using hs)
  simpa using hp

theorem closed (h : StatusPath s s') (hs : s.closed = true) : s'.closed = true := by
  refine h.closed_under ?_ hs
  intro a b
  cases a <;> cases b <;> decide

theorem taken (h : StatusPath s s') (hs : s.taken = true) : s'.taken = true := by
  refine h.closed_under ?_ hs
  intro a b
  cases a <;> cases b <;> decide

theorem ne_created (h : StatusPath s s') (hs : s ≠ .created) : s' ≠ .created := by
  have hp := h.closed_under (p := fun s => s ≠ .created) (by
    intro a b
    cases a <;> cases b <;> decide)
  simpa [hs] using hp

theorem retired (h : StatusPath s s') (hs : s.active = false) (hExpired : s ≠ .expired) :
    s'.active = false ∧ s' ≠ .expired := by
  have hp := h.closed_under (p := fun s => !s.active && s ≠ .expired) (by
    intro a b
    cases a <;> cases b <;> decide)
  simpa [hs, hExpired] using hp

end StatusPath

/-- What a statement leaves of a row: the agreement itself, its abandoned mark, the record of its
accept, and a status that the state machine reaches.  A row in the hands of a cancel can no longer
be marked abandoned. -/
structure RowGrows (row row' : AgreementRow) : Prop where
  request : row'.indexingRequestId = row.indexingRequestId
  indexer : row'.indexerId = row.indexerId
  terms : row'.terms = row.terms
  versionHash : row'.termsVersionHash = row.termsVersionHash
  status : StatusPath row.status row'.status
  abandoned : row.abandoned = true → row'.abandoned = true
  unabandoned : row.abandoned = false → row.status.ending = true → row'.abandoned = false
  recorded : row.acceptedAt.isSome = true → row'.acceptedAt.isSome = true

namespace RowGrows

variable {row row' row'' : AgreementRow}

theorem refl (row : AgreementRow) : RowGrows row row :=
  ⟨rfl, rfl, rfl, rfl, .refl, id, fun h _ => h, id⟩

theorem trans (h : RowGrows row row') (h' : RowGrows row' row'') : RowGrows row row'' where
  request := h'.request.trans h.request
  indexer := h'.indexer.trans h.indexer
  terms := h'.terms.trans h.terms
  versionHash := h'.versionHash.trans h.versionHash
  status := h.status.trans h'.status
  abandoned hRow := h'.abandoned (h.abandoned hRow)
  unabandoned hRow hEnding := h'.unabandoned (h.unabandoned hRow hEnding) (h.status.ending hEnding)
  recorded hRow := h'.recorded (h.recorded hRow)

end RowGrows

section Statements

variable {now : Nat} {row row' : AgreementRow}

theorem setStatusFrom_eq_some {s : IndexingAgreementStatus}
    {allowedFrom : List IndexingAgreementStatus} :
    setStatusFrom now s allowedFrom row = some row' ↔
      row.status ∈ allowedFrom ∧ row' = row.moved now s := by
  unfold setStatusFrom
  split
  · rename_i h
    simp [h, eq_comm]
  · rename_i h
    simp [h]

@[simp] theorem AgreementRow.writeEnd_status (replace : Bool) (canceledAt : Int)
    (canceledBy : String) (canceledTx : Option String) :
    (row.writeEnd replace canceledAt canceledBy canceledTx).status = row.status := by
  unfold writeEnd
  split <;> rfl

theorem RowGrows.writeEnd (row : AgreementRow) (replace : Bool) (canceledAt : Int)
    (canceledBy : String) (canceledTx : Option String) :
    RowGrows row (row.writeEnd replace canceledAt canceledBy canceledTx) := by
  unfold AgreementRow.writeEnd
  split <;> exact ⟨rfl, rfl, rfl, rfl, .refl, id, fun h _ => h, id⟩

def RowUpdate.sets : RowUpdate → Option IndexingAgreementStatus
  | .markAsUnresponsive => some .unresponsive
  | .markAsCanceledByRequester => some .canceledByRequester
  | .markAsAbandonedByIndexer => some .abandonedByIndexer
  | .markAsCancelling | .markAsAbandoning | .reopenCancel _ => some .cancelling
  | .markAsExpired => some .expired
  | .markAsRejected _ => some .rejected
  | _ => none

theorem RowUpdate.status_cases {u : RowUpdate} (h : u.run now row = some row') :
    row'.status = row.status ∨
      u.sets = some row'.status ∧ StatusChange row.status row'.status := by
  have hMove : ∀ {s allowedFrom} {r : AgreementRow},
      setStatusFrom now s allowedFrom row = some r → (∀ a ∈ allowedFrom, StatusChange a s) →
        r.status = s ∧ StatusChange row.status r.status := by
    intro s allowedFrom r hSet hAllowed
    obtain ⟨hMem, rfl⟩ := setStatusFrom_eq_some.mp hSet
    exact ⟨rfl, hAllowed _ hMem⟩
  cases u with
  | markAsUnresponsive | markAsCanceledByRequester | markAsAbandonedByIndexer | markAsCancelling
  | markAsExpired =>
    obtain ⟨hStatus, hChange⟩ := hMove h (by decide)
    exact .inr ⟨congrArg some hStatus.symm, hChange⟩
  | markAsAbandoning | reopenCancel seenLive | markAsRejected reason =>
    obtain ⟨r, hSet, rfl⟩ := Option.map_eq_some_iff.mp h
    obtain ⟨hStatus, hChange⟩ := hMove hSet (by decide)
    exact .inr ⟨congrArg some hStatus.symm, hChange⟩
  | updateOfferTxHash txHash | recordCancelCheck failedAttempts ended =>
    simp only [RowUpdate.run, Option.ite_none_right_eq_some, Option.some.injEq] at h
    exact .inl (by rw [← h.2])
  | markTerminatedEventEmitted | markAcceptedEventEmitted | markExpiredEventEmitted
  | recordAcceptedAudit acceptedAt acceptedTx | markReplacementQueued =>
    exact .inl (by rw [← Option.some.inj h])
  | recordCancelAudit canceledAt canceledBy canceledTx
  | recordAcceptAndCancelAudit acceptedAt acceptedTx canceledAt canceledBy canceledTx =>
    exact .inl (by rw [← Option.some.inj h]; simp)

/-- Every statement on one row changes its status as the state machine says, or not at all. -/
theorem RowUpdate.status_change {u : RowUpdate} (h : u.run now row = some row') :
    row'.status = row.status ∨ StatusChange row.status row'.status :=
  (status_cases h).imp_right And.right

theorem RowUpdate.status_eq {u : RowUpdate} (h : u.run now row = some row') :
    row'.status = row.status ∨ u.sets = some row'.status :=
  (status_cases h).imp_right And.left

theorem RowUpdate.grows {u : RowUpdate} (h : u.run now row = some row') : RowGrows row row' := by
  have hStatus : StatusPath row.status row'.status := by
    rcases status_change h with hSame | hChange
    · rw [hSame]
    · exact .single hChange
  cases u with
  | markAsUnresponsive | markAsCanceledByRequester | markAsAbandonedByIndexer | markAsCancelling
  | markAsExpired =>
    obtain ⟨-, rfl⟩ := setStatusFrom_eq_some.mp h
    exact ⟨rfl, rfl, rfl, rfl, hStatus, id, fun h _ => h, id⟩
  | reopenCancel seenLive | markAsRejected reason =>
    obtain ⟨r, hSet, rfl⟩ := Option.map_eq_some_iff.mp h
    obtain ⟨-, rfl⟩ := setStatusFrom_eq_some.mp hSet
    exact ⟨rfl, rfl, rfl, rfl, hStatus, id, fun h _ => h, id⟩
  | markAsAbandoning =>
    obtain ⟨r, hSet, rfl⟩ := Option.map_eq_some_iff.mp h
    obtain ⟨hMem, rfl⟩ := setStatusFrom_eq_some.mp hSet
    refine ⟨rfl, rfl, rfl, rfl, hStatus, fun _ => rfl, fun _ hEnding => ?_, id⟩
    rw [List.mem_singleton.mp hMem] at hEnding
    cases hEnding
  | updateOfferTxHash txHash | recordCancelCheck failedAttempts ended =>
    simp only [RowUpdate.run, Option.ite_none_right_eq_some, Option.some.injEq] at h
    obtain ⟨-, rfl⟩ := h
    exact ⟨rfl, rfl, rfl, rfl, hStatus, id, fun h _ => h, id⟩
  | markTerminatedEventEmitted | markAcceptedEventEmitted | markExpiredEventEmitted
  | markReplacementQueued =>
    obtain rfl := Option.some.inj h
    exact ⟨rfl, rfl, rfl, rfl, hStatus, id, fun h _ => h, id⟩
  | recordAcceptedAudit acceptedAt acceptedTx =>
    obtain rfl := Option.some.inj h
    exact ⟨rfl, rfl, rfl, rfl, hStatus, id, fun h _ => h, fun _ => by simp⟩
  | recordCancelAudit canceledAt canceledBy canceledTx =>
    obtain rfl := Option.some.inj h
    exact RowGrows.writeEnd _ _ _ _ _
  | recordAcceptAndCancelAudit acceptedAt acceptedTx canceledAt canceledBy canceledTx =>
    obtain rfl := Option.some.inj h
    have hEnd := RowGrows.writeEnd row (replaceEnd row
      (row.acceptedAt.or (some (asI64 acceptedAt))) (asI64 canceledAt) canceledTx)
      (asI64 canceledAt) canceledBy canceledTx
    exact ⟨hEnd.request, hEnd.indexer, hEnd.terms, hEnd.versionHash, hEnd.status, hEnd.abandoned,
      hEnd.unabandoned, fun _ => by simp⟩

theorem RowUpdate.stamps {u : RowUpdate} (h : u.run now row = some row') :
    (row'.acceptedEventEmittedAt = row.acceptedEventEmittedAt ∨ u = .markAcceptedEventEmitted) ∧
    (row'.terminatedEventEmittedAt = row.terminatedEventEmittedAt ∨
      row'.terminatedEventEmittedAt = none ∨ u = .markTerminatedEventEmitted) := by
  cases u with
  | markAsUnresponsive | markAsCanceledByRequester | markAsAbandonedByIndexer | markAsCancelling
  | markAsExpired =>
    obtain ⟨-, rfl⟩ := setStatusFrom_eq_some.mp h
    exact ⟨.inl rfl, .inl rfl⟩
  | markAsAbandoning | markAsRejected reason =>
    obtain ⟨r, hSet, rfl⟩ := Option.map_eq_some_iff.mp h
    obtain ⟨-, rfl⟩ := setStatusFrom_eq_some.mp hSet
    exact ⟨.inl rfl, .inl rfl⟩
  | reopenCancel seenLive =>
    obtain ⟨r, hSet, rfl⟩ := Option.map_eq_some_iff.mp h
    obtain ⟨-, rfl⟩ := setStatusFrom_eq_some.mp hSet
    cases seenLive
    · exact ⟨.inl rfl, .inl rfl⟩
    · exact ⟨.inl rfl, .inr (.inl rfl)⟩
  | updateOfferTxHash txHash | recordCancelCheck failedAttempts ended =>
    simp only [RowUpdate.run, Option.ite_none_right_eq_some, Option.some.injEq] at h
    obtain ⟨-, rfl⟩ := h
    exact ⟨.inl rfl, .inl rfl⟩
  | markTerminatedEventEmitted =>
    obtain rfl := Option.some.inj h
    exact ⟨.inl rfl, .inr (.inr rfl)⟩
  | markAcceptedEventEmitted =>
    obtain rfl := Option.some.inj h
    exact ⟨.inr rfl, .inl rfl⟩
  | markExpiredEventEmitted | recordAcceptedAudit acceptedAt acceptedTx | markReplacementQueued =>
    obtain rfl := Option.some.inj h
    exact ⟨.inl rfl, .inl rfl⟩
  | recordCancelAudit canceledAt canceledBy canceledTx
  | recordAcceptAndCancelAudit acceptedAt acceptedTx canceledAt canceledBy canceledTx =>
    obtain rfl := Option.some.inj h
    dsimp only [AgreementRow.writeEnd]
    split
    · exact ⟨.inl rfl, .inr (.inl rfl)⟩
    · exact ⟨.inl rfl, .inl rfl⟩

end Statements

namespace Agreements

variable {now : Nat} {row row' : AgreementRow}

theorem acceptRow_eq_some : acceptRow now row = some row' ↔
    row.status ∈ acceptFrom ∧ row' = row.moved now .acceptedOnChain :=
  setStatusFrom_eq_some

def cancelStatus (kind : CancelKind) (row : AgreementRow) : IndexingAgreementStatus :=
  match kind with
  | .byRequester => if row.abandoned then .abandonedByIndexer else .canceledByRequester
  | .byIndexer => .canceledByIndexer

def cancelFrom : CancelKind → List IndexingAgreementStatus
  | .byRequester => cancelByRequesterFrom
  | .byIndexer => cancelByIndexerFrom

theorem cancelRow_eq_some {kind : CancelKind} : cancelRow now kind row = some row' ↔
    row.status ∈ cancelFrom kind ∧
      row' = row.moved now (cancelStatus kind row) := by
  cases kind <;> exact setStatusFrom_eq_some

theorem acceptRow_eq_none (h : row.status ∉ acceptFrom) : acceptRow now row = none :=
  if_neg h

theorem cancelRow_eq_none {kind : CancelKind} (h : row.status ∉ cancelFrom kind) :
    cancelRow now kind row = none := by
  cases kind <;> exact if_neg h

theorem transition_accept (now : Nat) (row : AgreementRow) : transition now true none row =
    if row.status ∈ acceptFrom then (row.moved now .acceptedOnChain, ⟨true, false⟩)
    else (row, {}) := by
  split
  · rename_i hFrom
    simp [transition, acceptRow_eq_some.mpr ⟨hFrom, rfl⟩]
  · rename_i hOut
    simp [transition, acceptRow_eq_none hOut]

/-- What the accept and the cancel of one row can come to, whenever they are made: nothing, one of
them, or both. -/
theorem transition_uniform (applyAccept : Bool) (cancel : Option CancelKind) (row : AgreementRow) :
    (∀ now, transition now applyAccept cancel row = (row, {})) ∨
    (applyAccept = true ∧ cancel = none ∧ row.status ∈ acceptFrom ∧
      ∀ now, transition now applyAccept cancel row =
        (row.moved now .acceptedOnChain, ⟨true, false⟩)) ∨
    (∃ kind, cancel = some kind ∧ row.status ∈ cancelFrom kind ∧
      (row.status ∈ acceptFrom → applyAccept = false) ∧
      ∀ now, transition now applyAccept cancel row =
        (row.moved now (cancelStatus kind row), ⟨false, true⟩)) ∨
    ∃ kind, cancel = some kind ∧ applyAccept = true ∧ row.status ∈ acceptFrom ∧
      ∀ now, transition now applyAccept cancel row =
        (row.moved now (cancelStatus kind row), ⟨true, true⟩) := by
  by_cases hAccept : applyAccept = true ∧ row.status ∈ acceptFrom
  · obtain ⟨rfl, hFrom⟩ := hAccept
    have hRow : ∀ now, acceptRow now row = some (row.moved now .acceptedOnChain) :=
      fun now => acceptRow_eq_some.mpr ⟨hFrom, rfl⟩
    cases cancel with
    | none =>
      exact .inr (.inl ⟨rfl, rfl, hFrom, fun now => by rw [transition_accept, if_pos hFrom]⟩)
    | some kind =>
      have hMid : ∀ now, (row.moved now .acceptedOnChain).status ∈ cancelFrom kind := by
        intro now
        change IndexingAgreementStatus.acceptedOnChain ∈ cancelFrom kind
        cases kind <;> decide
      have hBoth : ∀ now, cancelRow now kind (row.moved now .acceptedOnChain) =
          some (row.moved now (cancelStatus kind row)) :=
        fun now => cancelRow_eq_some.mpr ⟨hMid now, rfl⟩
      refine .inr (.inr (.inr ⟨kind, rfl, rfl, hFrom, fun now => ?_⟩))
      simp [transition, hRow, hBoth]
  · have hNone : ∀ now, (if applyAccept then acceptRow now row else none) = none := by
      intro now
      cases applyAccept with
      | false => rfl
      | true => exact acceptRow_eq_none fun hFrom => hAccept ⟨rfl, hFrom⟩
    by_cases hCancel : ∃ kind, cancel = some kind ∧ row.status ∈ cancelFrom kind
    · obtain ⟨kind, rfl, hFrom⟩ := hCancel
      have hNot : row.status ∈ acceptFrom → applyAccept = false := fun hIn =>
        Bool.eq_false_iff.mpr fun hApplies => hAccept ⟨hApplies, hIn⟩
      refine .inr (.inr (.inl ⟨kind, rfl, hFrom, hNot, fun now => ?_⟩))
      simp [transition, hNone, cancelRow_eq_some.mpr ⟨hFrom, rfl⟩]
    · refine .inl fun now => ?_
      cases cancel with
      | none => simp [transition, hNone]
      | some kind =>
        have hFrom : row.status ∉ cancelFrom kind := fun hFrom => hCancel ⟨kind, rfl, hFrom⟩
        simp [transition, hNone, cancelRow_eq_none hFrom]

theorem transition_cases (now : Nat) (applyAccept : Bool) (cancel : Option CancelKind)
    (row : AgreementRow) :
    transition now applyAccept cancel row = (row, {}) ∨
    (applyAccept = true ∧ cancel = none ∧ row.status ∈ acceptFrom ∧
      transition now applyAccept cancel row =
        (row.moved now .acceptedOnChain, ⟨true, false⟩)) ∨
    (∃ kind, cancel = some kind ∧ row.status ∈ cancelFrom kind ∧
      transition now applyAccept cancel row =
        (row.moved now (cancelStatus kind row), ⟨false, true⟩)) ∨
    ∃ kind, cancel = some kind ∧ applyAccept = true ∧ row.status ∈ acceptFrom ∧
      transition now applyAccept cancel row =
        (row.moved now (cancelStatus kind row), ⟨true, true⟩) := by
  rcases transition_uniform applyAccept cancel row with h | ⟨hAccept, hNone, hFrom, h⟩ |
    ⟨kind, hKind, hFrom, -, h⟩ | ⟨kind, hKind, hAccept, hFrom, h⟩
  · exact .inl (h now)
  · exact .inr (.inl ⟨hAccept, hNone, hFrom, h now⟩)
  · exact .inr (.inr (.inl ⟨kind, hKind, hFrom, h now⟩))
  · exact .inr (.inr (.inr ⟨kind, hKind, hAccept, hFrom, h now⟩))

theorem path_cancelStatus {kind : CancelKind} {s : IndexingAgreementStatus}
    (hFrom : s ∈ cancelFrom kind) : StatusPath s (cancelStatus kind row) := by
  -- A row that is marked abandoned goes by way of `Cancelling`.
  have hEnd : StatusChange .cancelling (cancelStatus kind row) := by
    cases kind with
    | byIndexer => simp only [cancelStatus]; decide
    | byRequester => cases h : row.abandoned <;> simp only [cancelStatus, h] <;> decide
  have hStart : s = .cancelling ∨ StatusChange s .cancelling := by
    revert hFrom
    cases kind <;> cases s <;> decide
  rcases hStart with rfl | hStart
  · exact .single hEnd
  · exact .head hStart (.single hEnd)

theorem path_accepted {s : IndexingAgreementStatus} (hFrom : s ∈ acceptFrom) :
    StatusPath s .acceptedOnChain := by
  refine .single ?_
  revert hFrom
  cases s <;> decide

theorem grows_moved {s : IndexingAgreementStatus} (h : StatusPath row.status s) :
    RowGrows row (row.moved now s) :=
  ⟨rfl, rfl, rfl, rfl, h, id, fun h _ => h, id⟩

theorem transition_grows (now : Nat) (applyAccept : Bool) (cancel : Option CancelKind)
    (row : AgreementRow) : RowGrows row (transition now applyAccept cancel row).1 := by
  rcases transition_cases now applyAccept cancel row with h | ⟨-, -, hFrom, h⟩ |
    ⟨kind, -, hFrom, h⟩ | ⟨kind, -, -, hFrom, h⟩
  · rw [h]
    exact RowGrows.refl row
  · rw [h]
    exact grows_moved (path_accepted hFrom)
  · rw [h]
    exact grows_moved (path_cancelStatus hFrom)
  · rw [h]
    refine grows_moved ((path_accepted hFrom).trans (path_cancelStatus ?_))
    cases kind <;> decide

theorem transition_status (now : Nat) (applyAccept : Bool) (cancel : Option CancelKind)
    (row : AgreementRow) : (transition now applyAccept cancel row).1.status = row.status ∨
      (transition now applyAccept cancel row).1.status = .acceptedOnChain ∨
      (transition now applyAccept cancel row).1.status.isTerminalCancel = true := by
  have hEnds : ∀ kind, (cancelStatus kind row).isTerminalCancel = true := by
    intro kind
    cases kind with
    | byIndexer => rfl
    | byRequester => cases hMark : row.abandoned <;> simp only [cancelStatus, hMark] <;> rfl
  rcases transition_cases now applyAccept cancel row with h | ⟨-, -, -, h⟩ | ⟨kind, -, -, h⟩ |
    ⟨kind, -, -, -, h⟩ <;> rw [h]
  · exact .inl rfl
  · exact .inr (.inl rfl)
  · exact .inr (.inr (hEnds kind))
  · exact .inr (.inr (hEnds kind))

theorem active_of_transition {applyAccept : Bool} {cancel : Option CancelKind}
    (h : (transition now applyAccept cancel row).1.status.active = true) :
    row.status.active = true ∨ (applyAccept = true ∧ row.status = .expired) := by
  rcases transition_cases now applyAccept cancel row with hSame | ⟨hAccept, -, hFrom, -⟩ |
    ⟨kind, -, -, hEnd⟩ | ⟨kind, -, -, -, hEnd⟩
  · rw [hSame] at h
    exact .inl h
  · revert hFrom
    cases row.status <;> simp [acceptFrom, hAccept, IndexingAgreementStatus.active]
  all_goals
    rw [hEnd] at h
    cases kind <;> cases hMark : row.abandoned <;>
      simp [AgreementRow.moved, cancelStatus, hMark, IndexingAgreementStatus.active] at h

theorem transition_stamps (now : Nat) (applyAccept : Bool) (cancel : Option CancelKind)
    (row : AgreementRow) :
    (transition now applyAccept cancel row).1.acceptedEventEmittedAt =
        row.acceptedEventEmittedAt ∧
      (transition now applyAccept cancel row).1.terminatedEventEmittedAt =
        row.terminatedEventEmittedAt := by
  rcases transition_cases now applyAccept cancel row with h | ⟨-, -, -, h⟩ | ⟨kind, -, -, h⟩ |
    ⟨kind, -, -, -, h⟩ <;> rw [h] <;> exact ⟨rfl, rfl⟩

theorem transition_of_terminal {applyAccept : Bool} {cancel : Option CancelKind}
    (hEnded : row.status.isTerminalCancel = true) :
    transition now applyAccept cancel row = (row, {}) := by
  have hAccept : row.status ∉ acceptFrom := by
    revert hEnded
    cases row.status <;> decide
  have hCancel : ∀ kind, row.status ∉ cancelFrom kind := by
    intro kind
    revert hEnded
    cases kind <;> cases row.status <;> decide
  rcases transition_cases now applyAccept cancel row with h | ⟨-, -, hFrom, -⟩ |
    ⟨kind, -, hFrom, -⟩ | ⟨kind, -, -, hFrom, -⟩
  · exact h
  · exact absurd hFrom hAccept
  · exact absurd hFrom (hCancel kind)
  · exact absurd hFrom hAccept

theorem persistAcceptAudit_eq (audit : ReconciliationAudit) (row : AgreementRow) :
    persistAcceptAudit audit row =
      { row with
        acceptedAt := (audit.acceptedAt.map asI64).or row.acceptedAt
        acceptedTx := audit.acceptedTx.or row.acceptedTx } := by
  unfold persistAcceptAudit
  split
  · rename_i hNone
    simp only [Bool.and_eq_true, Option.isNone_iff_eq_none] at hNone
    simp [hNone.1, hNone.2]
  · rfl

theorem persistCancelAudit_eq (audit : ReconciliationAudit) (row : AgreementRow) :
    persistCancelAudit audit row =
      { row with
        canceledAt := (audit.canceledAt.map asI64).or row.canceledAt
        canceledBy := audit.canceledBy.or row.canceledBy
        canceledTx := audit.canceledTx.or row.canceledTx } := by
  unfold persistCancelAudit
  split
  · rename_i hNone
    simp only [Bool.and_eq_true, Option.isNone_iff_eq_none] at hNone
    simp [hNone.1.1, hNone.1.2, hNone.2]
  · rfl

theorem persistAudit_eq (outcome : ReconciliationOutcome) (audit : ReconciliationAudit)
    (row : AgreementRow) : persistAudit outcome audit row =
      { row with
        acceptedAt := if outcome.didAccept then (audit.acceptedAt.map asI64).or row.acceptedAt
          else row.acceptedAt
        acceptedTx := if outcome.didAccept then audit.acceptedTx.or row.acceptedTx
          else row.acceptedTx
        canceledAt := if outcome.didCancel then (audit.canceledAt.map asI64).or row.canceledAt
          else row.canceledAt
        canceledBy := if outcome.didCancel then audit.canceledBy.or row.canceledBy
          else row.canceledBy
        canceledTx := if outcome.didCancel then audit.canceledTx.or row.canceledTx
          else row.canceledTx } := by
  unfold persistAudit
  cases outcome.didAccept <;> cases outcome.didCancel <;>
    simp [persistAcceptAudit_eq, persistCancelAudit_eq]

theorem acceptedAt_persistAudit (outcome : ReconciliationOutcome) (audit : ReconciliationAudit)
    (row : AgreementRow) : (persistAudit outcome audit row).acceptedAt =
      if outcome.didAccept then (audit.acceptedAt.map asI64).or row.acceptedAt
      else row.acceptedAt := by
  rw [persistAudit_eq]

theorem persistAudit_grows (outcome : ReconciliationOutcome) (audit : ReconciliationAudit)
    (row : AgreementRow) : RowGrows row (persistAudit outcome audit row) := by
  rw [persistAudit_eq]
  refine ⟨rfl, rfl, rfl, rfl, .refl, id, fun h _ => h, fun hSome => ?_⟩
  dsimp only
  split
  · rw [Option.isSome_or, hSome, Bool.or_true]
  · exact hSome

theorem reconcileRow_grows (now : Nat) (item : ReconciliationItem) (row : AgreementRow) :
    RowGrows row (reconcileRow now item row) :=
  (transition_grows now item.applyAccept item.cancel row).trans (persistAudit_grows _ _ _)

theorem reconcileRow_status (now : Nat) (item : ReconciliationItem) (row : AgreementRow) :
    (reconcileRow now item row).status =
      (transition now item.applyAccept item.cancel row).1.status := by
  unfold reconcileRow
  rw [persistAudit_eq]

theorem recorded_reconcileRow {item : ReconciliationItem} (hAccept : item.applyAccept = true)
    (hFrom : row.status ∈ acceptFrom) (hAt : item.audit.acceptedAt.isSome = true) :
    (reconcileRow now item row).acceptedAt.isSome = true := by
  have hDid : (transition now item.applyAccept item.cancel row).2.didAccept = true := by
    rw [hAccept]
    simp [transition, acceptRow_eq_some.mpr ⟨hFrom, rfl⟩]
  unfold reconcileRow
  rw [acceptedAt_persistAudit, if_pos hDid, Option.isSome_or, Option.isSome_map, hAt,
    Bool.true_or]

theorem reconcileRow_stamps (now : Nat) (item : ReconciliationItem) (row : AgreementRow) :
    (reconcileRow now item row).acceptedEventEmittedAt = row.acceptedEventEmittedAt ∧
      (reconcileRow now item row).terminatedEventEmittedAt = row.terminatedEventEmittedAt := by
  unfold reconcileRow
  rw [persistAudit_eq]
  exact transition_stamps now item.applyAccept item.cancel row

theorem reconcileRow_of_terminal {item : ReconciliationItem}
    (hEnded : row.status.isTerminalCancel = true) : reconcileRow now item row = row := by
  unfold reconcileRow
  rw [transition_of_terminal hEnded]
  rfl

end Agreements

/-- A statement of the registry that writes a row, run at time `now`: one on a row of its own, or
the accept, the cancel or the audit of a reconciliation. -/
inductive RegistryWrite (now : Nat) : AgreementRow → AgreementRow → Prop
  | update {u : RowUpdate} {row row' : AgreementRow} :
      u.run now row = some row' → RegistryWrite now row row'
  | accept {row row' : AgreementRow} :
      Agreements.acceptRow now row = some row' → RegistryWrite now row row'
  | cancel {kind : CancelKind} {row row' : AgreementRow} :
      Agreements.cancelRow now kind row = some row' → RegistryWrite now row row'
  | audit {outcome : ReconciliationOutcome} {audit : ReconciliationAudit} {row : AgreementRow} :
      RegistryWrite now row (Agreements.persistAudit outcome audit row)

abbrev RegistryWrites (now : Nat) : AgreementRow → AgreementRow → Prop :=
  Relation.ReflTransGen (RegistryWrite now)

namespace Agreements

section Writes

variable {now : Nat} {t t' t'' : Agreements} {f : AgreementRow → Option AgreementRow}
  {R S : AgreementRow → AgreementRow → Prop}

/-- The tables have the same rows, each related to the one before it. -/
def RowsRel (R : AgreementRow → AgreementRow → Prop) (t t' : Agreements) : Prop :=
  ∀ id, Option.Rel R (t.lookup id) (t'.lookup id)

namespace RowsRel

theorem refl (hRefl : ∀ row, R row row) (t : Agreements) : RowsRel R t t := by
  intro id
  cases t.lookup id with
  | none => exact .none
  | some row => exact .some (hRefl row)

theorem mono (h : RowsRel R t t') (hSub : ∀ row row', R row row' → S row row') :
    RowsRel S t t' := by
  intro id
  have hRel := h id
  generalize t.lookup id = r at hRel
  generalize t'.lookup id = r' at hRel
  cases hRel with
  | none => exact .none
  | some hRow => exact .some (hSub _ _ hRow)

theorem next (h : RowsRel R t t') {id : IndexingAgreementId} {row : AgreementRow}
    (hRow : t.lookup id = some row) : ∃ row', t'.lookup id = some row' ∧ R row row' := by
  have hRel := h id
  rw [hRow] at hRel
  cases hRow' : t'.lookup id with
  | none =>
    rw [hRow'] at hRel
    cases hRel
  | some row' =>
    rw [hRow'] at hRel
    cases hRel with
    | some hRows => exact ⟨row', rfl, hRows⟩

theorem origin (h : RowsRel R t t') {id : IndexingAgreementId} {row' : AgreementRow}
    (hRow' : t'.lookup id = some row') : ∃ row, t.lookup id = some row ∧ R row row' := by
  have hRel := h id
  rw [hRow'] at hRel
  cases hRow : t.lookup id with
  | none =>
    rw [hRow] at hRel
    cases hRel
  | some row =>
    rw [hRow] at hRel
    cases hRel with
    | some hRows => exact ⟨row, rfl, hRows⟩

theorem trans (hTrans : ∀ a b c, R a b → R b c → R a c) (h : RowsRel R t t')
    (h' : RowsRel R t' t'') : RowsRel R t t'' := by
  intro id
  cases hRow : t.lookup id with
  | some row =>
    obtain ⟨row', hRow', hRows⟩ := h.next hRow
    obtain ⟨row'', hRow'', hRows'⟩ := h'.next hRow'
    rw [hRow'']
    exact .some (hTrans _ _ _ hRows hRows')
  | none =>
    cases hRow'' : t''.lookup id with
    | none => exact .none
    | some row'' =>
      obtain ⟨row', hRow', -⟩ := h'.origin hRow''
      obtain ⟨row, hSome, -⟩ := h.origin hRow'
      exact absurd (hRow.symm.trans hSome) nofun

end RowsRel

/-- The tables have the same rows, each written by statements at time `now`. -/
def Written (now : Nat) : Agreements → Agreements → Prop := RowsRel (RegistryWrites now)

namespace Written

theorem refl (t : Agreements) : Written now t t := RowsRel.refl (fun _ => .refl) t

theorem trans (h : Written now t t') (h' : Written now t' t'') : Written now t t'' :=
  RowsRel.trans (fun _ _ _ hab hbc => hab.trans hbc) h h'

end Written

theorem written_updateRow (hf : ∀ row row', f row = some row' → RegistryWrite now row row')
    (id : IndexingAgreementId) : Written now t ((t.updateRow id f).getD t) := by
  intro id'
  rw [lookup_updateRow]
  split
  · cases t.lookup id' with
    | none => exact .none
    | some row =>
      refine .some ?_
      unfold AgreementRow.applied
      cases hApplied : f row with
      | none => exact .refl
      | some row' => exact .single (hf row row' hApplied)
  · exact Written.refl t id'

theorem written_updateRows (hf : ∀ row row', f row = some row' → RegistryWrite now row row')
    (ids : List IndexingAgreementId) : Written now t (t.updateRows f ids).1 := by
  induction ids generalizing t with
  | nil => exact .refl t
  | cons id ids ih =>
    rw [updateRows_cons]
    exact (written_updateRow hf id).trans ih

theorem written_applyPaired {items : List ReconciliationItem} {outcomes outcomes' : Outcomes}
    (h : t.applyPaired now outcomes items = .ok (t', outcomes')) : Written now t t' := by
  induction items generalizing t outcomes with
  | nil =>
    cases h
    exact .refl _
  | cons item items ih =>
    unfold applyPaired at h
    split at h
    · exact ih h
    · simp only [updateStatusFrom_eq, applyCancel_eq] at h
      split at h
      · cases h
      · exact ((written_updateRow (fun _ _ => .accept) item.agreementId).trans
          (written_updateRow (fun _ _ => .cancel) item.agreementId)).trans (ih h)

theorem written_persistAudits (outcomes : Outcomes) (items : List ReconciliationItem) :
    Written now t (persistAudits outcomes t items) := by
  induction items generalizing t with
  | nil => exact .refl t
  | cons item items ih =>
    refine (written_updateRow (fun row row' h => ?_) item.agreementId).trans ih
    cases h
    exact .audit

/-- Whatever its items, a batch only makes such writes. -/
theorem written_batch {items : List ReconciliationItem} {outcomes : Outcomes}
    (h : t.applyReconciliationBatch now items = .ok (t', outcomes)) : Written now t t' := by
  obtain ⟨t1, t2, t3, t4, outcomes1, accepted, requested, indexed, hPaired, hAccepted, hRequested,
    hIndexed, -, rfl⟩ := phases_of_batch h
  have h1 : Written now t t1 := written_applyPaired hPaired
  have h2 : Written now t1 (t2, accepted).1 :=
    hAccepted ▸ written_updateRows (fun _ _ => .accept) _
  have h3 : Written now t2 (t3, requested).1 :=
    hRequested ▸ written_updateRows (fun _ _ => .cancel) _
  have h4 : Written now t3 (t4, indexed).1 :=
    hIndexed ▸ written_updateRows (fun _ _ => .cancel) _
  exact (((h1.trans h2).trans h3).trans h4).trans (written_persistAudits outcomes items)

theorem writes_transition (now : Nat) (applyAccept : Bool) (cancel : Option CancelKind)
    (row : AgreementRow) : RegistryWrites now row (transition now applyAccept cancel row).1 := by
  have hAccept : RegistryWrites now row
      ((if applyAccept then acceptRow now row else none).getD row) := by
    cases hRow : (if applyAccept then acceptRow now row else none) with
    | none => exact .refl
    | some row' =>
      rw [Option.ite_none_right_eq_some] at hRow
      exact .single (.accept hRow.2)
  refine hAccept.trans ?_
  unfold transition
  dsimp only
  cases hRow : cancel.bind fun kind => cancelRow now kind
    ((if applyAccept then acceptRow now row else none).getD row) with
  | none => exact .refl
  | some row' =>
    obtain ⟨kind, -, hCancel⟩ := Option.bind_eq_some_iff.mp hRow
    exact .single (.cancel hCancel)

theorem writes_reconcileRow (now : Nat) (item : ReconciliationItem) (row : AgreementRow) :
    RegistryWrites now row (reconcileRow now item row) :=
  (writes_transition now item.applyAccept item.cancel row).tail .audit

end Writes

section Grown

variable {now : Nat} {t t' t'' : Agreements} {row row' : AgreementRow}

theorem grows_of_write (h : RegistryWrite now row row') : RowGrows row row' := by
  cases h with
  | update hRun => exact RowUpdate.grows hRun
  | accept hRow =>
    obtain ⟨hFrom, rfl⟩ := acceptRow_eq_some.mp hRow
    exact grows_moved (path_accepted hFrom)
  | cancel hRow =>
    obtain ⟨hFrom, rfl⟩ := cancelRow_eq_some.mp hRow
    exact grows_moved (path_cancelStatus hFrom)
  | audit => exact persistAudit_grows _ _ row

theorem grows_of_writes (row row' : AgreementRow) (h : RegistryWrites now row row') :
    RowGrows row row' := by
  induction h with
  | refl => exact .refl row
  | tail _ hWrite ih => exact ih.trans (grows_of_write hWrite)

/-- The tables have the same rows, and each has grown. -/
def Grown (t t' : Agreements) : Prop :=
  ∀ id, Option.Rel RowGrows (t.lookup id) (t'.lookup id)

namespace Grown

theorem refl (t : Agreements) : Grown t t := RowsRel.refl RowGrows.refl t

theorem grows (h : Grown t t') {id : IndexingAgreementId} {row : AgreementRow}
    (hRow : t.lookup id = some row) : ∃ row', t'.lookup id = some row' ∧ RowGrows row row' :=
  RowsRel.next h hRow

theorem origin (h : Grown t t') {id : IndexingAgreementId} {row' : AgreementRow}
    (hRow' : t'.lookup id = some row') : ∃ row, t.lookup id = some row ∧ RowGrows row row' :=
  RowsRel.origin h hRow'

theorem trans (h : Grown t t') (h' : Grown t' t'') : Grown t t'' :=
  RowsRel.trans (fun _ _ _ hab hbc => hab.trans hbc) h h'

end Grown

theorem Written.grown (h : Written now t t') : Grown t t' := RowsRel.mono h grows_of_writes

end Grown

end Agreements

end Dipper
