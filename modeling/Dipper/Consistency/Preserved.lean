import Dipper.Consistency.Invariant

/-! Operations within the discipline keep the world consistent, and what never goes back they do
not turn back. -/

namespace Dipper

namespace OnChain

theorem grows_offer (deadline : Nat) (c : OnChain) : c.Grows (c.offer deadline) := by
  cases c <;> exact ⟨id, id, fun _ h => by cases h <;> rfl⟩

theorem grows_cancel (time : Nat) (c : OnChain) : c.Grows (c.cancel time) := by
  cases c <;> first
    | exact ⟨id, id, fun _ h => h⟩
    | exact ⟨fun _ => trivial, fun h => h.elim, fun _ h => h⟩

theorem wasAccepted_of_cancel {time : Nat} {c : OnChain} (h : (c.cancel time).WasAccepted) :
    c.WasAccepted := by
  cases c <;> exact h

theorem wasAccepted_of_offer {deadline : Nat} {c : OnChain}
    (h : (c.offer deadline).WasAccepted) : c.WasAccepted := by
  cases c <;> exact h

end OnChain

theorem ItemOk.isEnded {w : World} {item : ReconciliationItem} {kind : CancelKind} (h : ItemOk w item)
    (hKind : item.cancel = some kind) (hSeen : (w.pinned.chain item.agreementId).WasAccepted) :
    (w.pinned.chain item.agreementId).IsEnded := by
  cases kind with
  | byIndexer => exact h.byIndexer hKind
  | byRequester => exact h.byRequester hKind hSeen

namespace World

variable {config : Config} {w w' : World} {id : IndexingAgreementId} {row row' : AgreementRow}
  {t : Tag}

theorem RowOk.mono (h : w.RowOk id row) (hChain : (w.chain id).Grows (w'.chain id))
    (hPinned : (w.pinned.chain id).Grows (w'.pinned.chain id)) : w'.RowOk id row where
  seen hSeen := hPinned.accepted (h.seen hSeen)
  accepted hAt := ⟨hChain.accepted (h.accepted hAt).1, (h.accepted hAt).2⟩
  abandoned := h.abandoned
  marked := h.marked
  ended hEnded := hChain.ended (h.ended hEnded)
  versionHash := h.versionHash
  recorded := h.recorded

theorem RowOk.of_eq (h : w.RowOk id row) (hStatus : row'.status = row.status)
    (hAbandoned : row'.abandoned = row.abandoned) (hAt : row'.acceptedAt = row.acceptedAt)
    (hHash : row'.termsVersionHash = row.termsVersionHash) : w.RowOk id row' where
  seen := by rw [hStatus, hAbandoned]; exact h.seen
  accepted := by rw [hAt, hStatus]; exact h.accepted
  abandoned := by rw [hStatus, hAbandoned]; exact h.abandoned
  marked := by rw [hStatus, hAbandoned]; exact h.marked
  ended := by rw [hStatus]; exact h.ended
  versionHash := by rw [hHash]; exact h.versionHash
  recorded := by rw [hStatus, hAt]; exact h.recorded

theorem RowOk.of_moved (h : w.RowOk id row) {s : IndexingAgreementStatus}
    (hPath : StatusPath row.status s) (hPlain : row.abandoned = false)
    (hAccepted : s ≠ .acceptedOnChain) (hIndexer : s ≠ .canceledByIndexer)
    (hAbandoned : s ≠ .abandonedByIndexer) (hStatus : row'.status = s)
    (hMark : row'.abandoned = row.abandoned) (hAt : row'.acceptedAt = row.acceptedAt)
    (hHash : row'.termsVersionHash = row.termsVersionHash) : w.RowOk id row' where
  seen := by simp [hStatus, hAccepted, hMark, hPlain]
  accepted := by
    rw [hAt, hStatus]
    exact fun hSome => ⟨(h.accepted hSome).1, hPath.taken (h.accepted hSome).2⟩
  abandoned := by simp [hMark, hPlain]
  marked := by simp [hStatus, hAbandoned]
  ended := by simp [hStatus, hIndexer, hAbandoned]
  versionHash := by rw [hHash]; exact h.versionHash
  recorded := by simp [hStatus, hAccepted]

theorem RowOk.audited (h : w.RowOk id row) (hChain : (w.chain id).WasAccepted)
    (hTaken : row.status.taken = true) (hStatus : row'.status = row.status)
    (hMark : row'.abandoned = row.abandoned) (hAt : row'.acceptedAt.isSome = true)
    (hHash : row'.termsVersionHash = row.termsVersionHash) : w.RowOk id row' where
  seen := by rw [hStatus, hMark]; exact h.seen
  accepted _ := by rw [hStatus]; exact ⟨hChain, hTaken⟩
  abandoned := by rw [hStatus, hMark]; exact h.abandoned
  marked := by rw [hStatus, hMark]; exact h.marked
  ended := by rw [hStatus]; exact h.ended
  versionHash := by rw [hHash]; exact h.versionHash
  recorded _ := hAt

theorem RowOk.plain (h : w.RowOk id row) (hStatus : row.status.ending = false) :
    row.abandoned = false := by
  cases hMark : row.abandoned with
  | false => rfl
  | true =>
    have hEnding := (h.abandoned hMark).1
    rw [hStatus] at hEnding
    cases hEnding

theorem RowOk.plain_of_mem (h : w.RowOk id row) {allowedFrom : List IndexingAgreementStatus}
    (hFrom : row.status ∈ allowedFrom)
    (hAllowed : ∀ s ∈ allowedFrom, s.ending = false ∨ s = .canceledByRequester) :
    row.abandoned = false := by
  rcases hAllowed _ hFrom with hStatus | hStatus
  · exact h.plain hStatus
  · cases hMark : row.abandoned with
    | false => rfl
    | true => exact absurd hStatus (h.abandoned hMark).2

/-- A statement on a row keeps it fitting to the chain. -/
theorem RowOk.update (h : w.RowOk id row) {u : RowUpdate} (hPre : UpdatePre config t w id row u)
    {now : Nat} (hRun : u.run now row = some row') : w.RowOk id row' := by
  have hPath := (RowUpdate.grows hRun).status
  cases u with
  | markAsUnresponsive | markAsCancelling | markAsExpired =>
    obtain ⟨hFrom, rfl⟩ := setStatusFrom_eq_some.mp hRun
    exact h.of_moved hPath (h.plain_of_mem hFrom (by decide)) nofun nofun nofun rfl rfl rfl rfl
  | markAsCanceledByRequester =>
    obtain ⟨hFrom, rfl⟩ := setStatusFrom_eq_some.mp hRun
    exact h.of_moved hPath hPre.2.1 nofun nofun nofun rfl rfl rfl rfl
  | reopenCancel seenLive | markAsRejected reason =>
    obtain ⟨r, hSet, rfl⟩ := Option.map_eq_some_iff.mp hRun
    obtain ⟨hFrom, rfl⟩ := setStatusFrom_eq_some.mp hSet
    exact h.of_moved hPath (h.plain_of_mem hFrom (by decide)) nofun nofun nofun rfl rfl rfl rfl
  | markAsAbandonedByIndexer =>
    obtain ⟨hFrom, rfl⟩ := setStatusFrom_eq_some.mp hRun
    exact {
      seen := fun _ => h.seen (.inr hPre.1)
      accepted := fun hAt => ⟨(h.accepted hAt).1, rfl⟩
      abandoned := fun _ => ⟨rfl, nofun⟩
      marked := fun _ => hPre.1
      ended := fun _ => hPre.2
      versionHash := h.versionHash
      recorded := nofun }
  | markAsAbandoning =>
    obtain ⟨r, hSet, rfl⟩ := Option.map_eq_some_iff.mp hRun
    obtain ⟨hFrom, rfl⟩ := setStatusFrom_eq_some.mp hSet
    have hAccepted : row.status = .acceptedOnChain := List.mem_singleton.mp hFrom
    exact {
      seen := fun _ => h.seen (.inl hAccepted)
      accepted := fun hAt => ⟨(h.accepted hAt).1, rfl⟩
      abandoned := fun _ => ⟨rfl, nofun⟩
      marked := fun _ => rfl
      ended := fun hEnded => by rcases hEnded with hEnded | hEnded <;> cases hEnded
      versionHash := h.versionHash
      recorded := nofun }
  | updateOfferTxHash txHash | recordCancelCheck failedAttempts ended =>
    simp only [RowUpdate.run, Option.ite_none_right_eq_some, Option.some.injEq] at hRun
    obtain ⟨-, rfl⟩ := hRun
    exact h.of_eq rfl rfl rfl rfl
  | markTerminatedEventEmitted | markAcceptedEventEmitted | markExpiredEventEmitted
  | markReplacementQueued =>
    obtain rfl := Option.some.inj hRun
    exact h.of_eq rfl rfl rfl rfl
  | recordCancelAudit canceledAt canceledBy canceledTx =>
    obtain rfl := Option.some.inj hRun
    unfold AgreementRow.writeEnd
    split <;> exact h.of_eq rfl rfl rfl rfl
  | recordAcceptedAudit acceptedAt acceptedTx =>
    obtain rfl := Option.some.inj hRun
    have hTaken : row.status.taken = true := by simp [IndexingAgreementStatus.taken, hPre.1]
    exact h.audited hPre.2.1 hTaken rfl rfl (by simp) rfl
  | recordAcceptAndCancelAudit acceptedAt acceptedTx canceledAt canceledBy canceledTx =>
    obtain rfl := Option.some.inj hRun
    unfold AgreementRow.writeEnd
    have hTaken : row.status.taken = true := by simp [IndexingAgreementStatus.taken, hPre.1]
    split <;> exact h.audited hPre.2.1 hTaken rfl rfl (by simp) rfl

theorem RowOk.cancelled (h : w.RowOk id row) {kind : CancelKind} {now : Nat}
    (hIndexer : kind = .byIndexer → (w.chain id).IsEnded)
    (hRequester : kind = .byRequester → (w.pinned.chain id).WasAccepted → (w.chain id).IsEnded) :
    w.RowOk id (row.moved now (Agreements.cancelStatus kind row)) := by
  cases kind with
  | byIndexer =>
    exact {
      seen := fun hSeen => h.seen (.inr (hSeen.resolve_left fun h => by cases h))
      accepted := fun hAt => ⟨(h.accepted hAt).1, rfl⟩
      abandoned := fun _ => ⟨rfl, fun h => by cases h⟩
      marked := fun h => by cases h
      ended := fun _ => hIndexer rfl
      versionHash := h.versionHash
      recorded := fun h => by cases h }
  | byRequester =>
    cases hMark : row.abandoned with
    | true =>
      have hStatus : Agreements.cancelStatus .byRequester row = .abandonedByIndexer := if_pos hMark
      rw [hStatus]
      exact {
        seen := fun _ => h.seen (.inr hMark)
        accepted := fun hAt => ⟨(h.accepted hAt).1, rfl⟩
        abandoned := fun _ => ⟨rfl, fun h => by cases h⟩
        marked := fun _ => hMark
        ended := fun _ => hRequester rfl (h.seen (.inr hMark))
        versionHash := h.versionHash
        recorded := fun h => by cases h }
    | false =>
      have hStatus : Agreements.cancelStatus .byRequester row = .canceledByRequester := by
        simp [Agreements.cancelStatus, hMark]
      rw [hStatus]
      exact {
        seen := fun hSeen => h.seen (.inr (hSeen.resolve_left fun h => by cases h))
        accepted := fun hAt => ⟨(h.accepted hAt).1, rfl⟩
        abandoned := fun hTrue => absurd hTrue (by change row.abandoned ≠ true; simp [hMark])
        marked := fun h => by cases h
        ended := fun hEnded => by rcases hEnded with hEnded | hEnded <;> cases hEnded
        versionHash := h.versionHash
        recorded := fun h => by cases h }

theorem RowOk.acceptedNow (h : w.RowOk id row) (hFrom : row.status ∈ acceptFrom)
    (hSeen : (w.pinned.chain id).WasAccepted) (hChain : (w.chain id).WasAccepted)
    (hStatus : row'.status = .acceptedOnChain) (hMark : row'.abandoned = row.abandoned)
    (hAt : row'.acceptedAt.isSome = true)
    (hHash : row'.termsVersionHash = row.termsVersionHash) : w.RowOk id row' := by
  have hPlain : row.abandoned = false := h.plain_of_mem hFrom (by decide)
  exact {
    seen := fun _ => hSeen
    accepted := fun _ => ⟨hChain, by rw [hStatus]; rfl⟩
    abandoned := by simp [hMark, hPlain]
    marked := by simp [hStatus]
    ended := by simp [hStatus]
    versionHash := by rw [hHash]; exact h.versionHash
    recorded := fun _ => hAt }

theorem RowOk.transition (h : w.RowOk id row) (now : Nat) (hEnded : (w.chain id).IsEnded) :
    w.RowOk id (Agreements.transition now false (some .byIndexer) row).1 := by
  rcases Agreements.transition_cases now false (some .byIndexer) row with hT | ⟨hA, -⟩ |
    ⟨kind, hKind, -, hT⟩ | ⟨kind, -, hA, -⟩
  · rw [hT]
    exact h
  · cases hA
  · cases hKind
    rw [hT]
    exact h.cancelled (fun _ => hEnded) nofun
  · cases hA

theorem taken_cancelStatus (kind : CancelKind) (row : AgreementRow) :
    (Agreements.cancelStatus kind row).taken = true := by
  cases kind with
  | byIndexer => rfl
  | byRequester =>
    cases hMark : row.abandoned <;>
      simp [Agreements.cancelStatus, hMark, IndexingAgreementStatus.taken,
        IndexingAgreementStatus.ending]

theorem isSome_acceptedAt_of_made {item : ReconciliationItem}
    (h : ∃ snapshot agreement, item = Listener.reconciliationItem snapshot agreement)
    (hAccept : item.applyAccept = true) : item.audit.acceptedAt.isSome = true := by
  obtain ⟨snapshot, agreement, rfl⟩ := h
  change (if (Listener.reconciliationItem snapshot agreement).applyAccept then
    some snapshot.acceptedAt else none).isSome = true
  rw [if_pos hAccept]
  rfl

theorem RowOk.reconcile (h : w.RowOk id row) (now : Nat) {item : ReconciliationItem}
    (hItem : ItemOk w item) (hId : item.agreementId = id)
    (hGrows : (w.pinned.chain id).Grows (w.chain id)) :
    w.RowOk id (Agreements.reconcileRow now item row) := by
  subst hId
  have hCancelled : ∀ {kind}, item.cancel = some kind →
      w.RowOk item.agreementId (row.moved now (Agreements.cancelStatus kind row)) := by
    intro kind hKind
    exact h.cancelled (fun hEq => hGrows.ended (hItem.byIndexer (by rw [hKind, hEq])))
      (fun hEq hSeen => hGrows.ended (hItem.byRequester (by rw [hKind, hEq]) hSeen))
  have hRecorded : item.applyAccept = true →
      ∀ row', ((item.audit.acceptedAt.map asI64).or row').isSome = true := by
    intro hAccept row'
    have hAt := isSome_acceptedAt_of_made hItem.made hAccept
    simp [hAt]
  unfold Agreements.reconcileRow
  rcases Agreements.transition_cases now item.applyAccept item.cancel row with hT |
    ⟨hA, -, hFrom, hT⟩ | ⟨kind, hKind, -, hT⟩ | ⟨kind, hKind, hA, -, hT⟩ <;> rw [hT] <;>
    dsimp only
  · exact h
  · have hSeen := (hItem.accept hA).1
    refine h.acceptedNow hFrom hSeen (hGrows.accepted hSeen) ?_ ?_ ?_ ?_
    · rw [Agreements.persistAudit_eq]
      rfl
    · rw [Agreements.persistAudit_eq]
      rfl
    · rw [Agreements.acceptedAt_persistAudit]
      exact hRecorded hA _
    · rw [Agreements.persistAudit_eq]
      rfl
  · rw [Agreements.persistAudit_eq]
    exact (hCancelled hKind).of_eq rfl rfl rfl rfl
  · rw [Agreements.persistAudit_eq]
    exact (hCancelled hKind).audited (hGrows.accepted (hItem.accept hA).1)
      (taken_cancelStatus kind row) rfl rfl (hRecorded hA _) rfl

theorem RowOk.register (params : NewAgreementParams) (now : Nat)
    (hHash : ∃ hash, params.termsVersionHash = some hash ∧ hash.length = 32) :
    w.RowOk id (params.row now) where
  seen := fun hSeen => by rcases hSeen with hSeen | hSeen <;> cases hSeen
  accepted := nofun
  abandoned := nofun
  marked := nofun
  ended := fun hEnded => by rcases hEnded with hEnded | hEnded <;> cases hEnded
  versionHash := hHash
  recorded := nofun

structure Performed (config : Config) (t : Tag) (w : World) (o : Op) (w' : World) : Prop where
  effect : Effect w w' o
  pre : Pre config t w o

variable {o : Op}

theorem Performed.distinct (h : Performed config t w o w') : Distinct o := by
  cases o <;> first | exact h.pre.2.1 | trivial

theorem Performed.rowEffect (h : Performed config t w o w') (id : IndexingAgreementId) :
    RowEffect w id o (w.row id) (w'.row id) :=
  h.effect.row h.distinct id

theorem RowEffect.grows {r r' : Option AgreementRow} (h : RowEffect w id o r r')
    (hRow : r = some row) : ∃ row', r' = some row' ∧ RowGrows row row' := by
  cases h with
  | same => exact ⟨row, hRow, .refl row⟩
  | update hRun =>
    cases hRow
    exact ⟨_, rfl, RowUpdate.grows hRun⟩
  | reconcile =>
    cases hRow
    exact ⟨_, rfl, Agreements.transition_grows _ _ _ _⟩
  | batch =>
    cases hRow
    exact ⟨_, rfl, Agreements.reconcileRow_grows _ _ _⟩
  | register => cases hRow

theorem Performed.rows (h : Performed config t w o w') (hRow : w.row id = some row) :
    ∃ row', w'.row id = some row' ∧ RowGrows row row' :=
  (h.rowEffect id).grows hRow

theorem Performed.row_cases (h : Performed config t w o w') (hRow' : w'.row id = some row') :
    (∃ row, w.row id = some row ∧ RowGrows row row') ∨ (w.row id = none ∧
      ∃ params replaces, o = .register params replaces ∧ row' = params.row w.now) := by
  rcases h.effect.origin hRow' with hGrown | ⟨hNone, params, replaces, hOp, -, hNew⟩
  · exact .inl hGrown
  · exact .inr ⟨hNone, params, replaces, hOp, hNew⟩

/-- The rows after an operation fit to the chain as it was before. -/
theorem Performed.rowOk (h : Performed config t w o w') (hw : w.Consistent)
    (hRow : w'.row id = some row') : w.RowOk id row' := by
  have hPre := h.pre
  generalize hr : w.row id = r
  generalize hr' : w'.row id = r'
  have hEffect := h.rowEffect id
  rw [hr, hr'] at hEffect
  rw [hr'] at hRow
  cases hEffect with
  | same => exact hw.rows id row' (hr.trans hRow)
  | update hRun =>
    cases hRow
    exact (hw.rows id _ hr).update (hPre _ hr) hRun
  | reconcile =>
    cases hRow
    obtain ⟨rfl, rfl, hEnded⟩ := hPre
    exact (hw.rows id _ hr).transition w.now hEnded
  | batch hMem hId =>
    cases hRow
    exact (hw.rows id _ hr).reconcile w.now (hPre.2.2 _ hMem) hId
      ((hw.pinned id).trans (hw.indexed id))
  | register hId =>
    cases hRow
    exact .register _ _ hPre.2.1

theorem Performed.chain (h : Performed config t w o w') (id : IndexingAgreementId) :
    (w.chain id).Grows (w'.chain id) := by
  rcases h.effect.changes.chain id with hEq | ⟨deadline, -, hEq⟩ | ⟨hash, -, hEq⟩ <;> rw [hEq]
  · exact .refl _
  · exact OnChain.grows_offer deadline _
  · exact OnChain.grows_cancel _ _

theorem Performed.wasAccepted (h : Performed config t w o w')
    (hAccepted : (w'.chain id).WasAccepted) : (w.chain id).WasAccepted := by
  rcases h.effect.changes.chain id with hEq | ⟨deadline, -, hEq⟩ | ⟨hash, -, hEq⟩ <;>
    rw [hEq] at hAccepted
  · exact hAccepted
  · exact OnChain.wasAccepted_of_offer hAccepted
  · exact OnChain.wasAccepted_of_cancel hAccepted

theorem Performed.jobs (h : Performed config t w o w') : ∀ job ∈ w.jobs, job ∈ w'.jobs := by
  intro job hMem
  rcases h.effect.changes.jobs with hEq | ⟨new, -, hEq⟩ <;> rw [hEq]
  · exact hMem
  · exact List.mem_append_left _ hMem

theorem Performed.pinned (h : Performed config t w o w') (hw : w.Consistent)
    (id : IndexingAgreementId) : (w.pinned.chain id).Grows (w'.pinned.chain id) := by
  rcases h.effect.changes.pinned with hEq | ⟨since, -, hEq⟩ <;> rw [hEq]
  · exact .refl _
  · exact hw.pinned id

theorem Lapsed.of_rows {id : IndexingAgreementId} (h : w.Lapsed id)
    (hRows : ∀ row, w.row id = some row → ∃ row', w'.row id = some row' ∧ RowGrows row row')
    (hTime : w.chainTime ≤ w'.chainTime)
    (hAccepted : (w'.chain id).WasAccepted → (w.chain id).WasAccepted) : w'.Lapsed id := by
  obtain ⟨hNever, row, hRow, hDeadline⟩ := h
  obtain ⟨row', hRow', hGrows⟩ := hRows row hRow
  refine ⟨fun hTrue => hNever (hAccepted hTrue), row', hRow', ?_⟩
  rw [hGrows.terms]
  exact Nat.lt_of_lt_of_le hDeadline hTime

theorem Performed.events (h : Performed config t w o w') {e : Event} (he : e ∈ w.events) :
    e ∈ w'.events := by
  rcases h.effect.changes.events with hEq | ⟨event, -, hEq⟩ <;> rw [hEq]
  · exact he
  · exact List.mem_append_left _ he

/-- A statement that ends a row is made for an agreement that is over. -/
theorem dead_of_update {u : RowUpdate} {now : Nat} (hPre : UpdatePre config t w id row u)
    (hRun : u.run now row = some row') (hOpen : row.status.isTerminalCancel = false)
    (hEnded : row'.status.isTerminalCancel = true) : w.Dead id := by
  have hSame : row'.status = row.status → w.Dead id := by
    intro hEq
    rw [hEq, hOpen] at hEnded
    cases hEnded
  cases u with
  | markAsCanceledByRequester => exact hPre.2.2
  | markAsAbandonedByIndexer => exact .inl hPre.2
  | markAsUnresponsive | markAsCancelling | markAsExpired =>
    obtain ⟨-, rfl⟩ := setStatusFrom_eq_some.mp hRun
    cases hEnded
  | markAsAbandoning | reopenCancel seenLive | markAsRejected reason =>
    obtain ⟨r, hSet, rfl⟩ := Option.map_eq_some_iff.mp hRun
    obtain ⟨-, rfl⟩ := setStatusFrom_eq_some.mp hSet
    cases hEnded
  | updateOfferTxHash txHash | recordCancelCheck failedAttempts ended =>
    simp only [RowUpdate.run, Option.ite_none_right_eq_some, Option.some.injEq] at hRun
    exact hSame (by rw [← hRun.2])
  | markTerminatedEventEmitted | markAcceptedEventEmitted | markExpiredEventEmitted
  | recordAcceptedAudit acceptedAt acceptedTx | markReplacementQueued =>
    exact hSame (by rw [← Option.some.inj hRun])
  | recordCancelAudit canceledAt canceledBy canceledTx =>
    exact hSame (by rw [← Option.some.inj hRun]; simp)
  | recordAcceptAndCancelAudit acceptedAt acceptedTx canceledAt canceledBy canceledTx =>
    exact hSame (by rw [← Option.some.inj hRun]; simp)

theorem Performed.followed (h : Performed config t w o w') (hw : w.Consistent)
    {statuses : List IndexingAgreementStatus} (hHeld : StatusesHeld statuses)
    (hFollowed : w.Followed statuses id) : w'.Followed statuses id := by
  obtain ⟨hSeen, hState⟩ := hFollowed
  have hAccepted : (w.chain id).WasAccepted :=
    ((hw.pinned id).trans (hw.indexed id)).accepted hSeen
  refine ⟨(h.pinned hw id).accepted hSeen, ?_⟩
  rcases hState with hEnded | ⟨row, hRow, hMem⟩
  · exact .inl ((h.chain id).ended hEnded)
  obtain ⟨row', hRow', -⟩ := h.rows hRow
  have hPre := h.pre
  have hEffect := h.rowEffect id
  rw [hRow, hRow'] at hEffect
  have hEnd : (w.chain id).IsEnded → (w'.chain id).IsEnded ∨
      ∃ row, w'.row id = some row ∧ row.status ∈ statuses := fun hEnded =>
    .inl ((h.chain id).ended hEnded)
  have hStay : row'.status ∈ statuses → (w'.chain id).IsEnded ∨
      ∃ row, w'.row id = some row ∧ row.status ∈ statuses := fun hMem' => .inr ⟨row', hRow', hMem'⟩
  cases hEffect with
  | same => exact hStay hMem
  | update hRun =>
    rcases RowUpdate.status_change hRun with hSame | hChange
    · exact hStay (hSame ▸ hMem)
    · rcases hHeld _ hMem _ hChange with hMem' | hTerminal
      · exact hStay hMem'
      · have hDead := dead_of_update (hPre row hRow) hRun (hChange.open hTerminal)
          hTerminal
        exact hEnd (hDead.isEnded hAccepted)
  | reconcile => exact hEnd hPre.2.2
  | batch hItem hId =>
    rename_i items item
    have hCancelled : ∀ kind, item.cancel = some kind → (w.chain id).IsEnded := by
      intro kind hKind
      subst hId
      exact ((hw.pinned _).trans (hw.indexed _)).ended ((hPre.2.2 item hItem).isEnded hKind hSeen)
    have hStatus := Agreements.reconcileRow_status w.now item row
    rcases Agreements.transition_cases w.now item.applyAccept item.cancel row with hT |
      ⟨-, -, hFrom, hT⟩ | ⟨kind, hKind, -, -⟩ | ⟨kind, hKind, -, -, -⟩
    · refine hStay ?_
      rw [hStatus, hT]
      exact hMem
    · refine hStay ?_
      rw [hStatus, hT]
      have hNext : IndexingAgreementStatus.acceptedOnChain ∈ row.status.next := by
        revert hFrom
        cases row.status <;> decide
      exact (hHeld _ hMem _ hNext).resolve_right nofun
    · exact hEnd (hCancelled kind hKind)
    · exact hEnd (hCancelled kind hKind)

theorem Performed.applied (h : Performed config t w o w') :
    ∀ id ∈ w.acceptsApplied, id ∈ w'.acceptsApplied := by
  intro id hMem
  rcases h.effect.changes.acceptsApplied with hEq | ⟨items, t, outcomes, -, -, -, hEq⟩ <;> rw [hEq]
  · exact hMem
  · exact List.mem_append_left _ hMem

theorem Performed.clocks (h : Performed config t w o w') : ∀ ts ∈ w.clocks, ts ∈ w'.clocks := by
  intro ts hMem
  rcases h.effect.changes.listenerState with ⟨-, hEq⟩ | ⟨cursor, timestamp, -, hEq⟩ <;> rw [hEq]
  · exact hMem
  · exact List.mem_append_left _ hMem

theorem Performed.heads (h : Performed config t w o w') : ∀ head ∈ w.heads, head ∈ w'.heads := by
  intro head hMem
  rcases h.effect.changes.answer with ⟨-, hEq⟩ | ⟨since, pinned, r, -, -, hEq⟩ <;> rw [hEq]
  · exact hMem
  · exact List.mem_append_left _ hMem

theorem Performed.misread (h : Performed config t w o w') :
    ∀ id ∈ w.misread, id ∈ w'.misread := by
  intro id hMem
  rcases h.effect.changes.answer with ⟨hEq, -⟩ | ⟨since, pinned, r, -, -, hEq⟩ <;> rw [hEq]
  · exact hMem
  · exact List.mem_append_left _ hMem

theorem Performed.grows (h : Performed config t w o w') (hw : w.Consistent) : w.Grows w' where
  rows _ _ hRow := h.rows hRow
  chain := h.chain
  time := Nat.le_of_eq h.effect.changes.chainTime.symm
  jobs := h.jobs
  lapsed _ hLapsed := hLapsed.of_rows (fun _ hRow => h.rows hRow)
    (Nat.le_of_eq h.effect.changes.chainTime.symm) h.wasAccepted
  events _ he := h.events he
  followed hHeld hFollowed := h.followed hw hHeld hFollowed
  applied := h.applied
  clocks := h.clocks
  misread := h.misread
  heads := h.heads

theorem Grows.dead (h : w.Grows w') (hDead : w.Dead id) : w'.Dead id :=
  hDead.imp (h.chain id).ended (h.lapsed id)

theorem Grows.isSome (h : w.Grows w') (hRow : (w.row id).isSome = true) :
    (w'.row id).isSome = true := by
  obtain ⟨row, hRow⟩ := Option.isSome_iff_exists.mp hRow
  obtain ⟨row', hRow', -⟩ := h.rows id row hRow
  rw [hRow']
  rfl

theorem Grows.checkQueued (h : w.Grows w') (hCheck : w.CheckQueued id) : w'.CheckQueued id := by
  obtain ⟨accept, hMem⟩ := hCheck
  exact ⟨accept, h.jobs _ hMem⟩

theorem Performed.offers (h : Performed config t w o w') (hw : w.Consistent)
    (hChain : w'.chain id ≠ .absent) : ∃ row, w'.row id = some row ∧
      (∀ deadline, w'.chain id = .offered deadline → deadline = row.terms.deadline) ∧
      ∃ request, Job.submitOffer id request ∈ w'.jobs := by
  -- The row and the job stay; what the chain has of the offer is what it had, or is made now.
  have hKeep : ∀ row, w.row id = some row →
      (∀ deadline, w'.chain id = .offered deadline → deadline = row.terms.deadline) →
      (∃ request, Job.submitOffer id request ∈ w.jobs) → ∃ row, w'.row id = some row ∧
        (∀ deadline, w'.chain id = .offered deadline → deadline = row.terms.deadline) ∧
        ∃ request, Job.submitOffer id request ∈ w'.jobs := by
    rintro row hRow hDeadline ⟨request, hJob⟩
    obtain ⟨row', hRow', hGrows⟩ := h.rows hRow
    refine ⟨row', hRow', ?_, request, h.jobs _ hJob⟩
    rw [hGrows.terms]
    exact hDeadline
  rcases h.effect.changes.chain id with hEq | ⟨deadline, rfl, hEq⟩ | ⟨hash, rfl, hEq⟩
  · rw [hEq] at hChain
    obtain ⟨row, hRow, hDeadline, hJob⟩ := hw.offers id hChain
    exact hKeep row hRow (by rw [hEq]; exact hDeadline) hJob
  · obtain ⟨-, row, hRow, rfl, hJob⟩ := h.pre
    refine hKeep row hRow ?_ hJob
    intro d hd
    rw [hEq] at hd
    cases hc : w.chain id <;> rw [hc] at hd <;> cases hd <;> rfl
  · have hOld : w.chain id ≠ .absent := by
      intro hAbsent
      rw [hEq, hAbsent] at hChain
      exact hChain rfl
    obtain ⟨row, hRow, -, hJob⟩ := hw.offers id hOld
    refine hKeep row hRow ?_ hJob
    intro d hd
    rw [hEq] at hd
    cases hc : w.chain id <;> rw [hc] at hd <;> cases hd

theorem Grows.carries (h : w.Grows w') {accept : Option ChainAccept} (hCarries : w.Carries id accept) :
    w'.Carries id accept := by
  cases accept with
  | some accept => exact (h.chain id).acceptedAt _ hCarries
  | none => exact hCarries.imp ((h.chain id).acceptedAt 0) (h.misread id)

theorem Carries.wasAccepted {accept : ChainAccept} (h : w.Carries id (some accept)) :
    (w.chain id).WasAccepted :=
  OnChain.wasAccepted_of_acceptedAt h

theorem Performed.checks (h : Performed config t w o w') (hw : w.Consistent)
    {accept : Option ChainAccept} (hJob : Job.cancelRejectedAgreementOnChain id accept ∈ w'.jobs) :
    ∃ row, w'.row id = some row ∧ row.status.closed = true ∧ w'.Carries id accept := by
  have hKeep : ∀ row, w.row id = some row → row.status.closed = true → w.Carries id accept →
      ∃ row, w'.row id = some row ∧ row.status.closed = true ∧ w'.Carries id accept := by
    intro row hRow hClosed hCarries
    obtain ⟨row', hRow', hGrows⟩ := h.rows hRow
    exact ⟨row', hRow', hGrows.status.closed hClosed, (h.grows hw).carries hCarries⟩
  rcases h.effect.changes.jobs with hEq | ⟨job, rfl, hEq⟩ <;> rw [hEq] at hJob
  · obtain ⟨row, hRow, hClosed, hCarries⟩ := hw.checks id accept hJob
    exact hKeep row hRow hClosed hCarries
  · rcases List.mem_append.mp hJob with hOld | hNew
    · obtain ⟨row, hRow, hClosed, hCarries⟩ := hw.checks id accept hOld
      exact hKeep row hRow hClosed hCarries
    · obtain rfl := List.mem_singleton.mp hNew
      obtain ⟨-, row, hRow, hClosed, hCarries⟩ := h.pre
      exact hKeep row hRow hClosed hCarries

theorem Performed.replaced (h : Performed config t w o w') (hw : w.Consistent)
    {p : IndexingAgreementId × IndexingAgreementId} (hMem : p ∈ w'.replaced) :
    (w'.row p.1).isSome = true ∧ (w'.row p.2).isSome = true := by
  have hKeep : p ∈ w.replaced → (w'.row p.1).isSome = true ∧ (w'.row p.2).isSome = true :=
    fun hOld => ⟨(h.grows hw).isSome (hw.replaced p hOld).1, (h.grows hw).isSome (hw.replaced p hOld).2⟩
  rcases h.effect.changes.replaced with hEq | ⟨params, old, rfl, -, hRow, -, hEq⟩ <;>
    rw [hEq] at hMem
  · exact hKeep hMem
  · rcases List.mem_append.mp hMem with hOld | hNew
    · exact hKeep hOld
    · obtain rfl := List.mem_singleton.mp hNew
      exact ⟨by rw [hRow]; rfl, (h.grows hw).isSome (h.pre.2.2 old rfl)⟩

theorem Performed.replaced_mono (h : Performed config t w o w')
    {p : IndexingAgreementId × IndexingAgreementId} (hMem : p ∈ w.replaced) : p ∈ w'.replaced := by
  rcases h.effect.changes.replaced with hEq | ⟨params, old, -, -, -, -, hEq⟩ <;> rw [hEq]
  · exact hMem
  · exact List.mem_append_left _ hMem

theorem Performed.pending (h : Performed config t w o w') (hw : w.Consistent)
    {p : IndexingAgreementId × IndexingAgreementId} (hMem : p ∈ w'.pending) : p ∈ w'.replaced := by
  rcases h.effect.changes.pending with hEq | ⟨params, old, -, hEq, hReplaced⟩ | ⟨new, -, hEq⟩ |
    ⟨new, old, -, hEq⟩
  · exact h.replaced_mono (hw.pending p (hEq ▸ hMem))
  · rcases (hEq p).mp hMem with hOld | rfl
    · exact h.replaced_mono (hw.pending p hOld)
    · rw [hReplaced]
      exact List.mem_append_right _ (List.mem_singleton_self _)
  · rw [hEq] at hMem
    exact h.replaced_mono (hw.pending p (List.mem_of_mem_filter hMem))
  · rw [hEq] at hMem
    exact h.replaced_mono (hw.pending p (List.mem_of_mem_filter hMem))

/-- An operation within the discipline keeps the world consistent. -/
theorem Performed.consistent (h : Performed config t w o w') (hw : w.Consistent) : w'.Consistent where
  rows id _ hRow := (h.rowOk hw hRow).mono (h.chain id) (h.pinned hw id)
  offers _ hChain := h.offers hw hChain
  pinned id := by
    rw [h.effect.changes.indexed]
    rcases h.effect.changes.pinned with hEq | ⟨since, -, hEq⟩ <;> rw [hEq]
    · exact hw.pinned id
    · exact .refl _
  indexed id := by
    rw [h.effect.changes.indexed]
    exact (hw.indexed id).trans (h.chain id)
  indexedGraph := by
    rw [h.effect.changes.indexed]
    exact hw.indexedGraph
  pinnedGraph := by
    rcases h.effect.changes.pinned with hEq | ⟨since, -, hEq⟩ <;> rw [hEq]
    · exact hw.pinnedGraph
    · exact hw.indexedGraph
  checks _ _ hJob := h.checks hw hJob
  pending _ hMem := h.pending hw hMem
  replaced _ hMem := h.replaced hw hMem
  memory change hMem := by
    rcases h.effect.changes.memory with hEq | rfl
    · rw [hEq] at hMem
      exact (h.grows hw).checkQueued (hw.memory change hMem)
    · exact (h.grows hw).checkQueued (h.pre.2.1 change hMem)
  memoryClock ts hTs := by
    rcases h.effect.changes.memory with hEq | rfl
    · rw [hEq] at hTs
      exact h.clocks ts (hw.memoryClock ts hTs)
    · exact h.clocks ts (h.pre.2.2 ts hTs)
  clock cursor ts hState := by
    rcases h.effect.changes.listenerState with ⟨hEq, -⟩ | ⟨cursor', timestamp, -, rfl⟩
    · rw [hEq] at hState
      exact h.clocks ts (hw.clock cursor ts hState)
    · cases hState
      exact List.mem_append_right _ (List.mem_singleton.mpr rfl)

theorem inactive_of_run {u : RowUpdate} {now : Nat} (hRun : u.run now row = some row')
    (hInactive : row.status.active = false) : row'.status.active = false := by
  rcases RowUpdate.status_change hRun with hSame | hChange
  · rw [hSame]
    exact hInactive
  · cases u with
    | markAsUnresponsive | markAsCanceledByRequester | markAsAbandonedByIndexer | markAsCancelling
    | markAsExpired =>
      obtain ⟨-, rfl⟩ := setStatusFrom_eq_some.mp hRun
      rfl
    | markAsAbandoning | reopenCancel seenLive | markAsRejected reason =>
      obtain ⟨r, hSet, rfl⟩ := Option.map_eq_some_iff.mp hRun
      obtain ⟨-, rfl⟩ := setStatusFrom_eq_some.mp hSet
      rfl
    | updateOfferTxHash txHash | recordCancelCheck failedAttempts ended =>
      simp only [RowUpdate.run, Option.ite_none_right_eq_some, Option.some.injEq] at hRun
      obtain ⟨-, rfl⟩ := hRun
      exact hInactive
    | recordCancelAudit | recordAcceptAndCancelAudit =>
      obtain rfl := Option.some.inj hRun
      simpa using hInactive
    | _ =>
      obtain rfl := Option.some.inj hRun
      exact hInactive

theorem lastTerminated_append {e : Event} (h : w'.events = w.events ++ [e]) :
    w'.lastTerminated id = if e.terminatedId = some id then some e else w.lastTerminated id := by
  simp only [lastTerminated, h, List.reverse_append, List.reverse_singleton, List.singleton_append,
    List.find?_cons]
  by_cases hId : e.terminatedId = some id <;> simp [hId]

theorem terminatedId_of_isSignal {e : Event} (h : e.isSignal = true) : e.terminatedId = none := by
  cases e <;> first | rfl | cases h

/-- An active agreement was so before, is the one registered, or an accept of the listener brings
it back expired. -/
theorem Performed.active_origin (h : Performed config t w o w') (hRow' : w'.row id = some row')
    (hActive : row'.status.active = true) :
    (∃ row, w.row id = some row ∧ row.status.active = true) ∨
    (∃ params replaces, o = .register params replaces ∧ params.agreementId = id ∧
      w.row id = none ∧ row' = params.row w.now) ∨
    ∃ items item, o = .applyReconciliationBatch items ∧ item ∈ items ∧ item.agreementId = id ∧
      item.applyAccept = true ∧ ∃ row, w.row id = some row ∧ row.status = .expired := by
  have hPre := h.pre
  have hEffect := h.rowEffect id
  rw [hRow'] at hEffect
  generalize hRow : w.row id = r at hEffect ⊢
  cases hEffect with
  | same => exact .inl ⟨row', rfl, hActive⟩
  | update hRun =>
    refine .inl ⟨_, rfl, ?_⟩
    by_contra hInactive
    rw [inactive_of_run hRun (by simpa using hInactive)] at hActive
    cases hActive
  | reconcile =>
    rcases Agreements.active_of_transition hActive with hBefore | ⟨hAccept, -⟩
    · exact .inl ⟨_, rfl, hBefore⟩
    · rw [hPre.1] at hAccept
      cases hAccept
  | batch hItem hId =>
    rw [Agreements.reconcileRow_status] at hActive
    rcases Agreements.active_of_transition hActive with hBefore | ⟨hAccept, hExpired⟩
    · exact .inl ⟨_, rfl, hBefore⟩
    · exact .inr (.inr ⟨_, _, rfl, hItem, hId, hAccept, _, rfl, hExpired⟩)
  | register hId => exact .inr (.inl ⟨_, _, rfl, hId, rfl, rfl⟩)

theorem Performed.quiet (h : Performed config t w o w') (hTag : t ≠ .chainListener) :
    w.Quiet w' where
  pinned := by
    rcases h.effect.changes.pinned with hEq | ⟨since, rfl, -⟩
    · exact hEq
    · exact absurd h.pre hTag
  pageListed := by
    rcases h.effect.changes.pageListed with hEq | ⟨since, pinned, rfl, -⟩ | ⟨ids, listed, rfl, -⟩
    · exact hEq
    · exact absurd h.pre hTag
    · exact absurd h.pre hTag
  inactive id row row' hRow hRow' hInactive := by
    by_contra hActive
    rcases h.active_origin hRow' (by simpa using hActive) with ⟨row1, hRow1, hActive1⟩ |
      ⟨params, replaces, rfl, -, hNone, -⟩ | ⟨items, item, rfl, -⟩
    · obtain rfl := Option.some.inj (hRow.symm.trans hRow1)
      rw [hInactive] at hActive1
      cases hActive1
    · cases hNone.symm.trans hRow
    · exact absurd h.pre.1 hTag
  acceptedListed := by
    rcases h.effect.changes.acceptedListed with hEq | ⟨limit, rfl⟩
    · exact hEq
    · exact absurd h.pre hTag
  terminatedListed := by
    rcases h.effect.changes.terminatedListed with hEq | ⟨limit, ids, rfl, -⟩
    · exact hEq
    · exact absurd h.pre.1 hTag
  lastTerminated id := by
    rcases h.effect.changes.events with hEq | ⟨event, rfl, hEq⟩
    · rw [World.lastTerminated, hEq, World.lastTerminated]
    · have hNone := terminatedId_of_isSignal (h.pre.1.resolve_left hTag)
      rw [lastTerminated_append hEq, hNone, if_neg nofun]
  unstamped id row row' hRow hRow' hNone := by
    have hPre := h.pre
    have hEffect := h.rowEffect id
    rw [hRow, hRow'] at hEffect
    cases hEffect with
    | same => exact hNone
    | update hRun =>
      rcases (RowUpdate.stamps hRun).2 with hSame | hClear | rfl
      · exact hSame.trans hNone
      · exact hClear
      · exact absurd (hPre row hRow).1 hTag
    | reconcile => exact (Agreements.transition_stamps ..).2.trans hNone
    | batch => exact absurd hPre.1 hTag

structure Untouched (w w' : World) : Prop where
  agreements : w'.agreements = w.agreements := by rfl
  pending : w'.pending = w.pending := by rfl
  replaced : w'.replaced = w.replaced := by rfl
  events : w'.events = w.events := by rfl
  journal : w'.journal = w.journal := by rfl
  pinned : w'.pinned = w.pinned := by rfl
  listenerState : w'.listenerState = w.listenerState := by rfl
  terminatedListed : w'.terminatedListed = w.terminatedListed := by rfl
  acceptedListed : w'.acceptedListed = w.acceptedListed := by rfl
  acceptsApplied : w'.acceptsApplied = w.acceptsApplied := by rfl
  clocks : w'.clocks = w.clocks := by rfl
  pageListed : w'.pageListed = w.pageListed := by rfl
  misread : w'.misread = w.misread := by rfl
  heads : w'.heads = w.heads := by rfl

theorem untouched_of_outside {config : Config} {e : Outside} (h : e.move config w = some w') :
    Untouched w w' := by
  cases e with
  | block time | index graph =>
    simp only [Outside.move, Option.ite_none_right_eq_some, Option.some.injEq] at h
    obtain ⟨-, rfl⟩ := h
    exact {}
  | accept id | finish id by' =>
    obtain ⟨c, -, rfl⟩ := Option.map_eq_some_iff.mp h
    exact {}
  | clock now | request id value | reassess id | restart =>
    obtain rfl := Option.some.inj h
    exact {}

theorem chain_of_outside {e : Outside} (h : e.move config w = some w')
    (id : IndexingAgreementId) : w'.chain id = w.chain id ∨
      (w.chain id).accept w.chainTime = some (w'.chain id) ∨
      ∃ by', (w.chain id).finish w.chainTime by' = some (w'.chain id) := by
  cases e with
  | block time | index graph =>
    simp only [Outside.move, Option.ite_none_right_eq_some, Option.some.injEq] at h
    obtain ⟨-, rfl⟩ := h
    exact .inl rfl
  | accept id' =>
    obtain ⟨c, hAccept, rfl⟩ := Option.map_eq_some_iff.mp h
    rw [chain_setChain]
    split
    · rename_i hId
      rw [hId]
      exact .inr (.inl hAccept)
    · exact .inl rfl
  | finish id' by' =>
    obtain ⟨c, hFinish, rfl⟩ := Option.map_eq_some_iff.mp h
    rw [chain_setChain]
    split
    · rename_i hId
      rw [hId]
      exact .inr (.inr ⟨by', hFinish⟩)
    · exact .inl rfl
  | clock now | request id' value | reassess id' | restart =>
    obtain rfl := Option.some.inj h
    exact .inl rfl

theorem chainTime_of_outside {e : Outside} (h : e.move config w = some w') :
    w.chainTime ≤ w'.chainTime := by
  cases e with
  | block time | index graph =>
    simp only [Outside.move, Option.ite_none_right_eq_some, Option.some.injEq] at h
    obtain ⟨hTime, rfl⟩ := h
    first | exact hTime | exact Nat.le_refl _
  | accept id | finish id by' =>
    obtain ⟨c, -, rfl⟩ := Option.map_eq_some_iff.mp h
    exact Nat.le_refl _
  | clock now | request id value | reassess id | restart =>
    obtain rfl := Option.some.inj h
    exact Nat.le_refl _

theorem Untouched.sameRow (h : Untouched w w') (id : IndexingAgreementId) : w'.row id = w.row id := by
  rw [World.row, h.agreements, World.row]

theorem Grows.of_untouched (h : Untouched w w') (hChain : ∀ id, (w.chain id).Grows (w'.chain id))
    (hTime : w.chainTime ≤ w'.chainTime) (hJobs : ∀ job ∈ w.jobs, job ∈ w'.jobs)
    (hLapsed : ∀ id, w.Lapsed id → (w'.chain id).WasAccepted → (w.chain id).WasAccepted) :
    w.Grows w' where
  rows id row hRow := ⟨row, (h.sameRow id).trans hRow, .refl row⟩
  chain := hChain
  time := hTime
  jobs := hJobs
  lapsed id h' := h'.of_rows (fun row hRow => ⟨row, (h.sameRow id).trans hRow, .refl row⟩) hTime
    (hLapsed id h')
  events e he := by
    rw [h.events]
    exact he
  followed {statuses id} _ hFollowed := by
    rw [Followed, h.pinned, h.sameRow]
    exact ⟨hFollowed.1, hFollowed.2.imp (hChain id).ended fun hRow => hRow⟩
  applied id hMem := by
    rw [h.acceptsApplied]
    exact hMem
  clocks ts hMem := by
    rw [h.clocks]
    exact hMem
  misread id hMem := by
    rw [h.misread]
    exact hMem
  heads head hMem := by
    rw [h.heads]
    exact hMem

theorem Grows.of_same (h : Untouched w w') (hChain : w'.chain = w.chain)
    (hTime : w.chainTime ≤ w'.chainTime) (hJobs : ∀ job ∈ w.jobs, job ∈ w'.jobs) : w.Grows w' := by
  refine .of_untouched h (fun id => ?_) hTime hJobs fun id _ => ?_ <;> rw [hChain]
  · exact .refl _
  · exact fun h => h

theorem Quiet.of_untouched (h : Untouched w w') : w.Quiet w' where
  pinned := h.pinned
  pageListed := h.pageListed
  inactive id row row' hRow hRow' hInactive := by
    rw [h.sameRow] at hRow'
    obtain rfl := Option.some.inj (hRow.symm.trans hRow')
    exact hInactive
  acceptedListed := h.acceptedListed
  terminatedListed := h.terminatedListed
  lastTerminated id := by rw [World.lastTerminated, h.events, World.lastTerminated]
  unstamped id row row' hRow hRow' hNone := by
    rw [h.sameRow] at hRow'
    obtain rfl := Option.some.inj (hRow.symm.trans hRow')
    exact hNone

/-- Steps outside the chain: the subgraph may index more, reassessments may be queued, and the
listener may forget what it queued checks for. -/
theorem Consistent.of_same (hw : w.Consistent) (h : Untouched w w') (hChain : w'.chain = w.chain)
    (hIndexed : ∀ id, (w.indexed.chain id).Grows (w'.indexed.chain id) ∧
      (w'.indexed.chain id).Grows (w.chain id))
    (hGraph : ∀ s ∈ w'.indexed.graph.rows, Reflects (w'.indexed.chain s.agreementId) s)
    (hJobs : ∀ job ∈ w.jobs, job ∈ w'.jobs)
    (hNew : ∀ job ∈ w'.jobs, job ∈ w.jobs ∨ ∃ request, job = .reassessIndexingRequest request)
    (hMemory : ∀ change ∈ w'.memory.liveChecks, change ∈ w.memory.liveChecks)
    (hClock : ∀ ts ∈ w'.memory.lastPersistedTimestamp, ts ∈ w.clocks) : w'.Consistent := by
  have hRow : w'.row = w.row := funext h.sameRow
  exact {
    rows := fun id row hAt => by
      rw [hRow] at hAt
      exact (hw.rows id row hAt).mono (by rw [hChain]; exact .refl _)
        (by rw [h.pinned]; exact .refl _)
    offers := fun id hOffer => by
      rw [hChain] at hOffer ⊢
      rw [hRow]
      obtain ⟨row, hRow, hDeadline, request, hJob⟩ := hw.offers id hOffer
      exact ⟨row, hRow, hDeadline, request, hJobs _ hJob⟩
    pinned := fun id => by
      rw [h.pinned]
      exact (hw.pinned id).trans (hIndexed id).1
    indexed := fun id => by
      rw [hChain]
      exact (hIndexed id).2
    indexedGraph := hGraph
    pinnedGraph := by
      rw [h.pinned]
      exact hw.pinnedGraph
    checks := fun id accept hJob => by
      rcases hNew _ hJob with hOld | ⟨request, hEq⟩
      · obtain ⟨row, hStored, hClosed, hCarries⟩ := hw.checks id accept hOld
        refine ⟨row, by rw [hRow]; exact hStored, hClosed, ?_⟩
        cases accept <;> simpa only [Carries, hChain, h.misread] using hCarries
      · cases hEq
    pending := by
      rw [h.pending, h.replaced]
      exact hw.pending
    replaced := by
      rw [h.replaced, hRow]
      exact hw.replaced
    memory := fun change hMem => by
      obtain ⟨accept, hJob⟩ := hw.memory change (hMemory change hMem)
      exact ⟨accept, hJobs _ hJob⟩
    memoryClock := fun ts hTs => by
      rw [h.clocks]
      exact hClock ts hTs
    clock := by
      rw [h.listenerState, h.clocks]
      exact hw.clock }

theorem setChain_keeps {c : OnChain} (hw : w.Consistent) (hOld : w.chain id ≠ .absent)
    (hGrows : (w.chain id).Grows c) (hOffer : ∀ deadline, c ≠ .offered deadline)
    (hLapsed : w.Lapsed id → c.WasAccepted → (w.chain id).WasAccepted) :
    (w.setChain id c).Consistent ∧ w.Grows (w.setChain id c) := by
  have hChain : ∀ id', (w.chain id').Grows ((w.setChain id c).chain id') := by
    intro id'
    rw [chain_setChain]
    split
    · rename_i hId
      rw [hId]
      exact hGrows
    · exact .refl _
  refine ⟨?_, .of_untouched {} hChain (Nat.le_refl _) (fun _ h => h) fun id' h hNew => ?_⟩
  · exact {
      rows := fun id' row hRow => (hw.rows id' row hRow).mono (hChain id') (.refl _)
      offers := fun id' hNew => by
        rw [chain_setChain] at hNew ⊢
        split at hNew
        · rename_i hId
          obtain ⟨row, hRow, -, hJob⟩ := hw.offers id hOld
          subst hId
          simp only [if_true]
          exact ⟨row, hRow, fun d hd => absurd hd (hOffer d), hJob⟩
        · rename_i hId
          simp only [hId, if_false]
          exact hw.offers id' hNew
      pinned := hw.pinned
      indexed := fun id' => (hw.indexed id').trans (hChain id')
      indexedGraph := hw.indexedGraph
      pinnedGraph := hw.pinnedGraph
      checks := fun id' accept hJob => by
        obtain ⟨row, hRow, hClosed, hCarries⟩ := hw.checks id' accept hJob
        refine ⟨row, hRow, hClosed, ?_⟩
        cases accept with
        | some accept => exact (hChain id').acceptedAt _ hCarries
        | none => exact hCarries.imp ((hChain id').acceptedAt 0) fun hMem => hMem
      pending := hw.pending
      replaced := hw.replaced
      memory := hw.memory
      memoryClock := hw.memoryClock
      clock := hw.clock }
  · rw [chain_setChain] at hNew
    split at hNew
    · rename_i hId
      subst hId
      exact hLapsed h hNew
    · exact hNew

/-- The world outside keeps the world consistent. -/
theorem outside_keeps {e : Outside} (hw : w.Consistent) (h : e.move config w = some w') :
    w'.Consistent ∧ w.Grows w' := by
  have hIndexed : ∀ id, (w.indexed.chain id).Grows (w.indexed.chain id) ∧
      (w.indexed.chain id).Grows (w.chain id) := fun id => ⟨.refl _, hw.indexed id⟩
  cases e with
  | clock now =>
    obtain rfl := Option.some.inj h
    exact ⟨hw.of_same {} rfl hIndexed hw.indexedGraph (fun _ h => h) (fun _ => .inl) (fun _ h => h)
      hw.memoryClock, .of_same {} rfl (Nat.le_refl _) (fun _ h => h)⟩
  | block time =>
    simp only [Outside.move, Option.ite_none_right_eq_some, Option.some.injEq] at h
    obtain ⟨hTime, rfl⟩ := h
    exact ⟨hw.of_same {} rfl hIndexed hw.indexedGraph (fun _ h => h) (fun _ => .inl) (fun _ h => h)
      hw.memoryClock, .of_same {} rfl hTime (fun _ h => h)⟩
  | accept id =>
    obtain ⟨c, hAccept, rfl⟩ := Option.map_eq_some_iff.mp h
    cases hOffer : w.chain id <;> rw [hOffer] at hAccept <;>
      simp only [OnChain.accept, Option.ite_none_right_eq_some, Option.some.injEq,
        reduceCtorEq] at hAccept
    rename_i deadline
    obtain ⟨hTime, rfl⟩ := hAccept
    have hPresent : w.chain id ≠ .absent := by simp [hOffer]
    have hAccepted : (w.chain id).Grows (.accepted w.chainTime) := by
      rw [hOffer]
      exact ⟨fun h => h.elim, fun h => h.elim, fun _ h => by cases h⟩
    refine setChain_keeps hw hPresent hAccepted (fun _ h => by cases h) ?_
    rintro ⟨-, row', hRow', hPast⟩ _
    -- The offer's deadline has passed, so it cannot be accepted.
    exfalso
    obtain ⟨row, hRow, hDeadline, -⟩ := hw.offers id hPresent
    obtain rfl := Option.some.inj (hRow.symm.trans hRow')
    have := hDeadline deadline hOffer
    omega
  | finish id by' =>
    obtain ⟨c, hFinish, rfl⟩ := Option.map_eq_some_iff.mp h
    cases hAccepted : w.chain id <;> rw [hAccepted] at hFinish <;>
      simp only [OnChain.finish, Option.some.injEq, reduceCtorEq] at hFinish
    subst hFinish
    have hPresent : w.chain id ≠ .absent := by simp [hAccepted]
    refine setChain_keeps hw hPresent ?_ (fun _ h => by cases h) fun _ _ => ?_
    · rw [hAccepted]
      exact ⟨fun _ => trivial, fun h => h.elim, fun _ h => h⟩
    · rw [hAccepted]
      trivial
  | index graph =>
    simp only [Outside.move, Option.ite_none_right_eq_some, Option.some.injEq] at h
    obtain ⟨hReflects, rfl⟩ := h
    exact ⟨hw.of_same {} rfl (fun id => ⟨hw.indexed id, .refl _⟩) hReflects (fun _ h => h)
      (fun _ => .inl) (fun _ h => h) hw.memoryClock, .of_same {} rfl (Nat.le_refl _) (fun _ h => h)⟩
  | request id value =>
    obtain rfl := Option.some.inj h
    exact ⟨hw.of_same {} rfl hIndexed hw.indexedGraph (fun _ h => h) (fun _ => .inl) (fun _ h => h)
      hw.memoryClock, .of_same {} rfl (Nat.le_refl _) (fun _ h => h)⟩
  | reassess id =>
    obtain rfl := Option.some.inj h
    have hJobs : ∀ job ∈ w.jobs, job ∈ w.jobs ++ [.reassessIndexingRequest id] :=
      fun _ => List.mem_append_left _
    have hNew : ∀ job ∈ w.jobs ++ [.reassessIndexingRequest id],
        job ∈ w.jobs ∨ ∃ request, job = .reassessIndexingRequest request := by
      intro job hMem
      rcases List.mem_append.mp hMem with hOld | hNew
      · exact .inl hOld
      · exact .inr ⟨id, List.mem_singleton.mp hNew⟩
    exact ⟨hw.of_same {} rfl hIndexed hw.indexedGraph hJobs hNew (fun _ h => h) hw.memoryClock,
      .of_same {} rfl (Nat.le_refl _) hJobs⟩
  | restart =>
    obtain rfl := Option.some.inj h
    have hNone : (w.startingMemory config).liveChecks = [] := by
      unfold startingMemory
      split <;> rfl
    have hClock : ∀ ts ∈ (w.startingMemory config).lastPersistedTimestamp, ts ∈ w.clocks := by
      unfold startingMemory
      split
      · rename_i cursor timestamp hState
        intro ts hTs
        cases hTs
        exact hw.clock cursor ts hState
      · intro ts hTs
        cases hTs
    refine ⟨hw.of_same {} rfl hIndexed hw.indexedGraph (fun _ h => h) (fun _ => .inl) ?_ hClock,
      .of_same {} rfl (Nat.le_refl _) (fun _ h => h)⟩
    change ∀ change ∈ (w.startingMemory config).liveChecks, _
    rw [hNone]
    exact fun _ hMem => absurd hMem List.not_mem_nil

theorem Grows.refl (w : World) : w.Grows w :=
  .of_same {} rfl (Nat.le_refl _) (fun _ h => h)

theorem Grows.trans {w'' : World} (h : w.Grows w') (h' : w'.Grows w'') : w.Grows w'' where
  rows id row hRow := by
    obtain ⟨row1, hRow1, hGrows1⟩ := h.rows id row hRow
    obtain ⟨row2, hRow2, hGrows2⟩ := h'.rows id row1 hRow1
    exact ⟨row2, hRow2, hGrows1.trans hGrows2⟩
  chain id := (h.chain id).trans (h'.chain id)
  time := Nat.le_trans h.time h'.time
  jobs job hMem := h'.jobs job (h.jobs job hMem)
  lapsed id hLapsed := h'.lapsed id (h.lapsed id hLapsed)
  events e he := h'.events e (h.events e he)
  followed hHeld hFollowed := h'.followed hHeld (h.followed hHeld hFollowed)
  applied id hMem := h'.applied id (h.applied id hMem)
  clocks ts hMem := h'.clocks ts (h.clocks ts hMem)
  misread id hMem := h'.misread id (h.misread id hMem)
  heads head hMem := h'.heads head (h.heads head hMem)

theorem Quiet.trans {w'' : World} (hGrows : w.Grows w') (h : w.Quiet w') (h' : w'.Quiet w'') :
    w.Quiet w'' where
  pinned := h'.pinned.trans h.pinned
  pageListed := h'.pageListed.trans h.pageListed
  inactive id row row'' hRow hRow'' hInactive := by
    obtain ⟨row', hRow', -⟩ := hGrows.rows id row hRow
    exact h'.inactive id row' row'' hRow' hRow'' (h.inactive id row row' hRow hRow' hInactive)
  acceptedListed := h'.acceptedListed.trans h.acceptedListed
  terminatedListed := h'.terminatedListed.trans h.terminatedListed
  lastTerminated id := (h'.lastTerminated id).trans (h.lastTerminated id)
  unstamped id row row'' hRow hRow'' hNone := by
    obtain ⟨row', hRow', -⟩ := hGrows.rows id row hRow
    exact h'.unstamped id row' row'' hRow' hRow'' (h.unstamped id row row' hRow hRow' hNone)

theorem Quiet.refl (w : World) : w.Quiet w := .of_untouched {}

end World

open World

variable {config : Config} {allow : World → Tag → Op → Choice → Prop}

theorem performed_of_performs {t : Tag} {w w' : World} {o : Op} {r : Res o} (hPre : Pre config t w o)
    (h : (services config allow).Performs t w o r w') : Performed config t w o w' := by
  obtain ⟨c, -, hExec⟩ := h
  exact ⟨exec_effect hExec, hPre⟩

theorem consistent_fresh (now chainTime : Nat) (requests : Requests) :
    (World.fresh now chainTime requests).Consistent where
  rows _ _ hRow := by cases hRow
  offers _ hChain := absurd rfl hChain
  pinned _ := .refl _
  indexed _ := .refl _
  indexedGraph := nofun
  pinnedGraph := nofun
  checks := nofun
  pending := nofun
  replaced := nofun
  memory := nofun
  memoryClock := nofun
  clock := nofun

theorem consistency_sound (config : Config) (allow : World → Tag → Op → Choice → Prop) :
    (consistency config).Sound (services config allow) where
  refl _ w := ⟨.refl w, fun _ => .refl w⟩
  trans hab hbc :=
    ⟨hab.1.trans hbc.1, fun hTag => (hab.2 hTag).trans hab.1 (hbc.2 hTag)⟩
  keeps hInv hPre hOp := (performed_of_performs hPre hOp).consistent hInv
  cross {t t' _ _ _ _} hTag hInv hPre hOp := by
    have hPerformed := performed_of_performs hPre hOp
    refine ⟨hPerformed.grows hInv, fun hListener => hPerformed.quiet ?_⟩
    rcases hTag with hNe | hShared
    · exact fun hEq => hNe (hEq.trans hListener.symm)
    · rintro rfl
      cases hShared
  env hInv hEnv := by
    obtain ⟨hInv', hGrows⟩ := outside_keeps hInv hEnv
    exact ⟨hInv', fun _ => ⟨hGrows, fun _ => .of_untouched (untouched_of_outside hEnv)⟩⟩

end Dipper
