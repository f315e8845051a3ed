import Dipper.Concurrent.Observed
import Dipper.Consistency.Runs
import Dipper.Registering

/-! The slots of abandoned agreements.  An agreement whose indexer stopped serving it keeps its slot
of the request while it may still be paid: until a read of the chain, or a snapshot of the subgraph,
has shown that it ended.  The services are run with a record of what such reads have shown, and
every statement that frees a slot is found to come after one. -/

namespace Dipper

open Concurrent World

/-- The row of an abandoned agreement whose slot is not to be filled again. -/
structure AgreementRow.HoldsSlot (row : AgreementRow) : Prop where
  status : row.status = .cancelling
  pending : row.replacementPending = true
  unseen : row.endedSeenAt = none

theorem AgreementRow.HoldsSlot.selects {row : AgreementRow} (h : row.HoldsSlot) (now : Nat)
    (requests : Requests) (id : IndexingAgreementId) :
    (AgreementQuery.holdingSlots row.indexingRequestId).selects now requests id row = true := by
  simp [AgreementQuery.selects, h.status, h.pending, h.unseen]

/-- The columns of a slot fit together, for an agreement that has been `seen` ended or not. -/
structure AgreementRow.SlotOk (seen : Prop) (row : AgreementRow) : Prop where
  held : row.abandoned = true → seen ∨ row.HoldsSlot
  ending : row.endedSeenAt.isSome = true → row.status.ending = true
  pending : row.replacementPending = true → row.abandoned = true

section Rows

variable {now : Nat} {row row' : AgreementRow} {seen : Prop}

namespace AgreementRow.SlotOk

theorem mono {seen' : Prop} (h : row.SlotOk seen) (hSeen : seen → seen') : row.SlotOk seen' where
  held hAbandoned := (h.held hAbandoned).imp_left hSeen
  ending := h.ending
  pending := h.pending

theorem of_same (h : row.SlotOk seen) (hStatus : row'.status = row.status)
    (hAbandoned : row'.abandoned = row.abandoned)
    (hPending : row'.replacementPending = row.replacementPending)
    (hSeenAt : row'.endedSeenAt = row.endedSeenAt) : row'.SlotOk seen where
  held hMark := by
    refine (h.held (hAbandoned ▸ hMark)).imp_right fun hHolds => ?_
    exact ⟨hStatus.trans hHolds.status, hPending.trans hHolds.pending, hSeenAt.trans hHolds.unseen⟩
  ending hSome := by
    rw [hStatus]
    exact h.ending (hSeenAt ▸ hSome)
  pending hTrue := by
    rw [hAbandoned]
    exact h.pending (hPending ▸ hTrue)

theorem of_path (h : row.SlotOk seen) (hPath : StatusPath row.status row'.status)
    (hFree : row.abandoned = true → seen) (hAbandoned : row'.abandoned = row.abandoned)
    (hPending : row'.replacementPending = row.replacementPending)
    (hSeenAt : row'.endedSeenAt = row.endedSeenAt ∨ row'.endedSeenAt = none) :
    row'.SlotOk seen where
  held hMark := .inl (hFree (hAbandoned ▸ hMark))
  ending hSome := by
    rcases hSeenAt with hSame | hNone
    · exact hPath.ending (h.ending (hSame ▸ hSome))
    · rw [hNone] at hSome
      cases hSome
  pending hTrue := by
    rw [hAbandoned]
    exact h.pending (hPending ▸ hTrue)

theorem seen_of_status (h : row.SlotOk seen) (hStatus : row.status ≠ .cancelling)
    (hAbandoned : row.abandoned = true) : seen :=
  (h.held hAbandoned).resolve_right fun hHolds => hStatus hHolds.status

theorem seen_of_mem (h : row.SlotOk seen) {allowedFrom : List IndexingAgreementStatus}
    (hFrom : row.status ∈ allowedFrom) (hOut : .cancelling ∉ allowedFrom)
    (hAbandoned : row.abandoned = true) : seen :=
  h.seen_of_status (fun hStatus => hOut (hStatus ▸ hFrom)) hAbandoned

end AgreementRow.SlotOk

theorem RowUpdate.slotOk {u : RowUpdate} (h : u.run now row = some row') (hOk : row.SlotOk seen)
    (hFrees : u.frees = true → row.abandoned = true → seen)
    (hRequester : u = .markAsCanceledByRequester → row.abandoned = false) :
    row'.SlotOk seen := by
  have hPath := (RowUpdate.grows h).status
  cases u with
  | markAsUnresponsive | markAsCancelling | markAsExpired =>
    obtain ⟨hFrom, rfl⟩ := setStatusFrom_eq_some.mp h
    exact hOk.of_path hPath (hOk.seen_of_mem hFrom (by decide)) rfl rfl (.inl rfl)
  | markAsCanceledByRequester =>
    obtain ⟨-, rfl⟩ := setStatusFrom_eq_some.mp h
    refine hOk.of_path hPath (fun hAbandoned => ?_) rfl rfl (.inl rfl)
    rw [hRequester rfl] at hAbandoned
    cases hAbandoned
  | markAsAbandonedByIndexer =>
    obtain ⟨-, rfl⟩ := setStatusFrom_eq_some.mp h
    exact hOk.of_path hPath (hFrees rfl) rfl rfl (.inl rfl)
  | reopenCancel seenLive =>
    obtain ⟨r, hSet, rfl⟩ := Option.map_eq_some_iff.mp h
    obtain ⟨hFrom, rfl⟩ := setStatusFrom_eq_some.mp hSet
    exact hOk.of_path hPath (hOk.seen_of_mem hFrom (by decide)) rfl rfl (.inr rfl)
  | markAsRejected reason =>
    obtain ⟨r, hSet, rfl⟩ := Option.map_eq_some_iff.mp h
    obtain ⟨hFrom, rfl⟩ := setStatusFrom_eq_some.mp hSet
    exact hOk.of_path hPath (hOk.seen_of_mem hFrom (by decide)) rfl rfl (.inl rfl)
  | markAsAbandoning =>
    obtain ⟨r, hSet, rfl⟩ := Option.map_eq_some_iff.mp h
    obtain ⟨hFrom, rfl⟩ := setStatusFrom_eq_some.mp hSet
    -- The agreement was accepted, so no end of it was noted before.
    have hUnseen : row.endedSeenAt = none := by
      refine Option.not_isSome_iff_eq_none.mp fun hSome => ?_
      have hEnding := hOk.ending hSome
      rw [List.mem_singleton.mp hFrom] at hEnding
      cases hEnding
    exact ⟨fun _ => .inr ⟨rfl, rfl, hUnseen⟩, fun _ => rfl, fun _ => rfl⟩
  | recordCancelCheck failedAttempts ended =>
    simp only [RowUpdate.run, Option.ite_none_right_eq_some, Option.some.injEq] at h
    obtain ⟨hStatus, rfl⟩ := h
    have hEnding : row.status.ending = true := by
      rw [hStatus]
      rfl
    refine ⟨fun hAbandoned => ?_, fun _ => hEnding, hOk.pending⟩
    cases ended with
    | none =>
      exact (hOk.held hAbandoned).imp_right fun hHolds => ⟨hStatus, hHolds.pending, hHolds.unseen⟩
    | some ended =>
      cases ended with
      | true => exact .inl (hFrees rfl hAbandoned)
      | false =>
        exact (hOk.held hAbandoned).imp_right fun hHolds => ⟨hStatus, hHolds.pending, rfl⟩
  | markReplacementQueued =>
    obtain rfl := Option.some.inj h
    exact ⟨fun hAbandoned => .inl (hFrees rfl hAbandoned), hOk.ending, fun h => by cases h⟩
  | updateOfferTxHash txHash =>
    simp only [RowUpdate.run, Option.ite_none_right_eq_some, Option.some.injEq] at h
    obtain ⟨-, rfl⟩ := h
    exact hOk.of_same rfl rfl rfl rfl
  | markTerminatedEventEmitted | markAcceptedEventEmitted | markExpiredEventEmitted
  | recordAcceptedAudit acceptedAt acceptedTx =>
    obtain rfl := Option.some.inj h
    exact hOk.of_same rfl rfl rfl rfl
  | recordCancelAudit canceledAt canceledBy canceledTx
  | recordAcceptAndCancelAudit acceptedAt acceptedTx canceledAt canceledBy canceledTx =>
    obtain rfl := Option.some.inj h
    dsimp only [AgreementRow.writeEnd]
    split <;> exact hOk.of_same rfl rfl rfl rfl

theorem Agreements.transition_slotOk {applyAccept : Bool} {cancel : Option CancelKind}
    (hOk : row.SlotOk seen) (hFree : cancel.isSome = true → row.abandoned = true → seen) :
    (transition now applyAccept cancel row).1.SlotOk seen := by
  have hPath := (transition_grows now applyAccept cancel row).status
  rcases transition_cases now applyAccept cancel row with h | ⟨-, -, hFrom, h⟩ |
    ⟨kind, rfl, -, h⟩ | ⟨kind, rfl, -, -, h⟩ <;> rw [h] at hPath ⊢
  · exact hOk
  · exact hOk.of_path hPath (hOk.seen_of_mem hFrom (by decide)) rfl rfl (.inl rfl)
  · exact hOk.of_path hPath (hFree rfl) rfl rfl (.inl rfl)
  · exact hOk.of_path hPath (hFree rfl) rfl rfl (.inl rfl)

theorem Agreements.reconcileRow_slotOk {item : ReconciliationItem} (hOk : row.SlotOk seen)
    (hFree : item.cancel.isSome = true → row.abandoned = true → seen) :
    (reconcileRow now item row).SlotOk seen := by
  unfold reconcileRow
  rw [persistAudit_eq]
  exact (transition_slotOk hOk hFree).of_same rfl rfl rfl rfl

end Rows

section Record

def pageSnapshots (since : Cursor) (response : ChangedAgreementsResponse) :
    List AgreementStateSnapshot :=
  match readPage since response with
  | .ok result => result.snapshots
  | .error _ => []

/-- The agreements that the result of an operation shows not live, and that have ended: by a read of
the chain, or by snapshots of the subgraph. -/
def World.showsEnded (w : World) : (o : Op) → Res o → World → List IndexingAgreementId
  | .agreementOnChain id, .ok found, _ =>
    if found ≠ .live ∧ (w.chain id).IsEnded then [id] else []
  | .getChanged since _, .ok response, w' =>
    ((pageSnapshots since response).filter fun x =>
      x.state.isCanceled && decide (w'.pinned.chain x.agreementId).IsEnded).map (·.agreementId)
  | _, _, _ => []

/-- The services with a record of the agreements that have been shown to have ended. -/
abbrev recordedServices (config : Config) (allow : World → Tag → Op → Choice → Prop) :
    System (World × List IndexingAgreementId) Tag Op Res Unit Choice Seed Outside :=
  (services config allow).observed World.showsEnded

abbrev Recorded : Type := World × List IndexingAgreementId

/-- Every slot is held until the end of its agreement has been shown. -/
structure SlotsKept (s : Recorded) : Prop where
  consistent : s.1.Consistent
  rows : ∀ id row, s.1.row id = some row → row.SlotOk (id ∈ s.2)
  shown : ∀ id ∈ s.2, (s.1.chain id).IsEnded

/-- The agreement has been shown to have ended, or it was not abandoned and cannot be any more. -/
def Over (s : Recorded) (id : IndexingAgreementId) : Prop :=
  id ∈ s.2 ∨ s.1.Marked id .notWanted

structure RecordGrows (s s' : Recorded) : Prop where
  world : s.1.Grows s'.1
  record : s.2 ⊆ s'.2

theorem RecordGrows.trans {s s' s'' : Recorded} (h : RecordGrows s s') (h' : RecordGrows s' s'') :
    RecordGrows s s'' :=
  ⟨h.world.trans h'.world, List.Subset.trans h.record h'.record⟩

theorem Over.mono {s s' : Recorded} {id : IndexingAgreementId} (h : Over s id)
    (hGrows : RecordGrows s s') : Over s' id :=
  h.imp (fun hMem => hGrows.record hMem) fun hMarked => hMarked.mono hGrows.world

theorem Over.shown {s : Recorded} {id : IndexingAgreementId} (h : Over s id) {row : AgreementRow}
    (hRow : s.1.row id = some row) (hAbandoned : row.abandoned = true) : id ∈ s.2 := by
  refine h.resolve_right ?_
  rintro ⟨row', hRow', -, hPlain⟩
  obtain rfl := Option.some.inj (hRow.symm.trans hRow')
  rw [hAbandoned] at hPlain
  cases hPlain

/-- When an operation that can free a slot is performed. -/
def SlotPre (s : Recorded) : Op → Prop
  | .update id u => u.frees = true → Over s id
  | .applyReconciliation id _ _ => Over s id
  | .applyReconciliationBatch items => ∀ item ∈ items, item.cancel.isSome = true →
      (s.1.pinned.chain item.agreementId).IsEnded → item.agreementId ∈ s.2
  | _ => True

def slots : Discipline Recorded Tag Op where
  inv := SlotsKept
  pre _ := SlotPre
  rely t s s' := RecordGrows s s' ∧ (t = .chainListener → s'.1.pinned = s.1.pinned)

variable {config : Config} {allow : World → Tag → Op → Choice → Prop} {t : Tag} {s s' : Recorded}
  {o : Op} {r : Res o}

theorem performed_of_recorded
    (h : (recordedServices config (Consistently config allow)).Performs t s o r s') :
    Performed config t s.1 o s'.1 := by
  obtain ⟨⟨choice, hAllow, hExec⟩, -⟩ := System.observed_performs h
  exact ⟨exec_effect hExec, hAllow.2.2⟩

theorem recordGrows_of_performs (hInv : SlotsKept s)
    (h : (recordedServices config (Consistently config allow)).Performs t s o r s') :
    RecordGrows s s' := by
  refine ⟨(performed_of_recorded h).grows hInv.consistent, ?_⟩
  rw [(System.observed_performs h).2]
  exact List.subset_append_left _ _

theorem isEnded_of_shows (hInv : s.1.Consistent) {id : IndexingAgreementId}
    (h : (recordedServices config (Consistently config allow)).Performs t s o r s')
    (hId : id ∈ s.1.showsEnded o r s'.1) : (s'.1.chain id).IsEnded := by
  have hPerformed := performed_of_recorded h
  have hGrows := hPerformed.grows hInv
  have hInv' := hPerformed.consistent hInv
  unfold showsEnded at hId
  split at hId
  · split at hId
    · rename_i hShown
      obtain rfl := List.mem_singleton.mp hId
      exact (hGrows.chain _).ended hShown.2
    · cases hId
  · obtain ⟨x, hx, rfl⟩ := List.mem_map.mp hId
    have hPinned := (Bool.and_eq_true_iff.mp (List.mem_filter.mp hx).2).2
    exact ((hInv'.pinned _).trans (hInv'.indexed _)).ended (of_decide_eq_true hPinned)
  · cases hId

theorem isEnded_of_item {w : World} {item : ReconciliationItem} (hItem : ItemOk w item)
    (hCancel : item.cancel.isSome = true)
    (hAccepted : (w.pinned.chain item.agreementId).WasAccepted) :
    (w.pinned.chain item.agreementId).IsEnded := by
  obtain ⟨kind, hKind⟩ := Option.isSome_iff_exists.mp hCancel
  cases kind with
  | byIndexer => exact hItem.byIndexer hKind
  | byRequester => exact hItem.byRequester hKind hAccepted

theorem slotOk_of_performed (hInv : SlotsKept s) (hPre : SlotPre s o)
    (hPerformed : Performed config t s.1 o s'.1) {id : IndexingAgreementId} {row' : AgreementRow}
    (hRow' : s'.1.row id = some row') : row'.SlotOk (id ∈ s.2) := by
  have hEffect := hPerformed.rowEffect id
  have hConditions := hPerformed.pre
  rw [hRow'] at hEffect
  generalize hBefore : s.1.row id = before at hEffect
  cases hEffect with
  | same => exact hInv.rows id row' hBefore
  | update hRun =>
    refine RowUpdate.slotOk hRun (hInv.rows id _ hBefore) (fun hFrees => ?_) ?_
    · exact (hPre hFrees).shown hBefore
    · rintro rfl
      exact (hConditions _ hBefore).2.1
  | reconcile =>
    exact Agreements.transition_slotOk (hInv.rows id _ hBefore) fun _ => hPre.shown hBefore
  | batch hItem hId =>
    subst hId
    refine Agreements.reconcileRow_slotOk (hInv.rows _ _ hBefore) fun hCancel hAbandoned => ?_
    have hSeen := (hInv.consistent.rows _ _ hBefore).seen (.inr hAbandoned)
    exact hPre _ hItem hCancel (isEnded_of_item (hConditions.2.2 _ hItem) hCancel hSeen)
  | register => exact ⟨nofun, nofun, nofun⟩

theorem slots_sound (config : Config) (allow : World → Tag → Op → Choice → Prop) :
    slots.Sound (recordedServices config (Consistently config allow)) where
  refl _ s := ⟨⟨.refl s.1, List.Subset.refl _⟩, fun _ => rfl⟩
  trans hab hbc := ⟨hab.1.trans hbc.1, fun hTag => (hbc.2 hTag).trans (hab.2 hTag)⟩
  keeps hInv hPre hOp := by
    have hPerformed := performed_of_recorded hOp
    have hGrows := recordGrows_of_performs hInv hOp
    refine ⟨hPerformed.consistent hInv.consistent, fun id row' hRow' => ?_, fun id hId => ?_⟩
    · exact (slotOk_of_performed hInv hPre hPerformed hRow').mono fun hMem => hGrows.record hMem
    · rw [(System.observed_performs hOp).2] at hId
      rcases List.mem_append.mp hId with hOld | hNew
      · exact (hGrows.world.chain id).ended (hInv.shown id hOld)
      · exact isEnded_of_shows hInv.consistent hOp hNew
  cross hTag hInv _ hOp := by
    refine ⟨recordGrows_of_performs hInv hOp, ?_⟩
    rintro rfl
    refine ((performed_of_recorded hOp).quiet ?_).pinned
    rintro rfl
    rcases hTag with hNe | hShared
    · exact hNe rfl
    · cases hShared
  env hInv hEnv := by
    obtain ⟨hMove, hRecord⟩ := System.observed_env hEnv
    obtain ⟨hConsistent, hGrows⟩ := outside_keeps hInv.consistent hMove
    have hUntouched := untouched_of_outside hMove
    refine ⟨⟨hConsistent, fun id row hRow => ?_, fun id hId => ?_⟩,
      fun _ => ⟨⟨hGrows, ?_⟩, fun _ => hUntouched.pinned⟩⟩
    · rw [World.row, hUntouched.agreements] at hRow
      rw [hRecord]
      exact hInv.rows id row hRow
    · rw [hRecord] at hId
      exact (hGrows.chain id).ended (hInv.shown id hId)
    · rw [hRecord]
      exact List.Subset.refl _

end Record

section Told

/-- What a program knows from the results it got: the agreements it read accepted or in the hands of
a cancel, those it found over since, and the page of the subgraph it read last. -/
structure Told where
  settled : List IndexingAgreementId := []
  foundOver : List IndexingAgreementId := []
  page : List AgreementStateSnapshot := []

namespace Told

def after (k : Told) : (o : Op) → Res o → Told
  | .select .acceptedOnChain, .ok rows => { k with settled := rows.map (·.1) ++ k.settled }
  | .select (.cancelling ..), .ok rows => { k with settled := rows.map (·.1) ++ k.settled }
  | .select (.awaitingReplacement _), .ok rows =>
    { k with foundOver := rows.map (·.1) ++ k.foundOver }
  | .agreementOnChain id, .ok found =>
    if found ≠ .live ∧ id ∈ k.settled then { k with foundOver := id :: k.foundOver } else k
  | .getChanged since _, .ok response => { k with page := pageSnapshots since response }
  | _, _ => k

/-- What is known is enough to perform the operation. -/
def Suffices (k : Told) : Op → Prop
  | .update id u => u.frees = true → id ∈ k.foundOver
  | .applyReconciliation id _ _ => id ∈ k.foundOver
  | .applyReconciliationBatch items => ∀ item ∈ items, item.cancel.isSome = true →
      ∃ x ∈ k.page, x.agreementId = item.agreementId ∧ x.state.isCanceled = true
  | _ => True

/-- The agreement was accepted on the chain, or it was not abandoned and cannot be any more. -/
def Settled (s : Recorded) (id : IndexingAgreementId) : Prop :=
  (s.1.chain id).WasAccepted ∨ s.1.Marked id .notWanted

/-- What is known is true of the state. -/
structure Holds (t : Tag) (k : Told) (s : Recorded) : Prop where
  settled : ∀ id ∈ k.settled, Settled s id
  foundOver : ∀ id ∈ k.foundOver, Over s id
  page : ∀ x ∈ k.page, t = .chainListener ∧ (x.state.isCanceled = true →
    (s.1.pinned.chain x.agreementId).IsEnded → x.agreementId ∈ s.2)

variable {t : Tag} {k : Told} {s s' : Recorded} {id : IndexingAgreementId} {row : AgreementRow}

theorem Settled.mono (h : Settled s id) (hGrows : RecordGrows s s') : Settled s' id :=
  h.imp (fun hAccepted => (hGrows.world.chain id).accepted hAccepted)
    fun hMarked => hMarked.mono hGrows.world

theorem settled_of_accepted (hInv : SlotsKept s) (hRow : s.1.row id = some row)
    (hStatus : row.status = .acceptedOnChain) : Settled s id :=
  .inl (hInv.consistent.seen hRow (.inl hStatus))

/-- An agreement read while dipper is cancelling it was abandoned, and then accepted before, or
wasn't and won't be. -/
theorem settled_of_cancelling (hInv : SlotsKept s) (hRow : s.1.row id = some row)
    (hStatus : row.status = .cancelling) : Settled s id := by
  cases hMark : row.abandoned with
  | true => exact .inl (hInv.consistent.seen hRow (.inr hMark))
  | false =>
    have hMarked := (hInv.consistent.read hRow).marked hStatus
    rw [hMark] at hMarked
    exact .inr hMarked

theorem over_of_awaiting (hInv : SlotsKept s) (hRow : s.1.row id = some row)
    (hPending : row.replacementPending = true) (hStatus : row.status ≠ .cancelling) :
    Over s id := by
  have hOk := hInv.rows id row hRow
  exact .inl (hOk.seen_of_status hStatus (hOk.pending hPending))

namespace Holds

theorem init (t : Tag) (s : Recorded) : Holds t {} s := ⟨nofun, nofun, nofun⟩

theorem mono (h : Holds t k s) (hGrows : RecordGrows s s')
    (hPinned : t = .chainListener → s'.1.pinned = s.1.pinned) : Holds t k s' where
  settled id hId := (h.settled id hId).mono hGrows
  foundOver id hId := (h.foundOver id hId).mono hGrows
  page x hx := by
    obtain ⟨hTag, hShown⟩ := h.page x hx
    refine ⟨hTag, fun hCanceled hEnded => hGrows.record (hShown hCanceled ?_)⟩
    rw [← hPinned hTag]
    exact hEnded

theorem addSettled (h : Holds t k s) {ids : List IndexingAgreementId}
    (hIds : ∀ id ∈ ids, Settled s id) : Holds t { k with settled := ids ++ k.settled } s where
  settled id hId := (List.mem_append.mp hId).elim (hIds id) (h.settled id)
  foundOver := h.foundOver
  page := h.page

theorem addOver (h : Holds t k s) {ids : List IndexingAgreementId}
    (hIds : ∀ id ∈ ids, Over s id) : Holds t { k with foundOver := ids ++ k.foundOver } s where
  settled := h.settled
  foundOver id hId := (List.mem_append.mp hId).elim (hIds id) (h.foundOver id)
  page := h.page

theorem pre {o : Op} (h : Holds t k s) (hSuffices : k.Suffices o) : SlotPre s o := by
  cases o with
  | update id u => exact fun hFrees => h.foundOver id (hSuffices hFrees)
  | applyReconciliation id applyAccept cancel => exact h.foundOver id hSuffices
  | applyReconciliationBatch items =>
    intro item hItem hCancel hEnded
    obtain ⟨x, hx, hId, hCanceled⟩ := hSuffices item hItem hCancel
    rw [← hId] at hEnded ⊢
    exact (h.page x hx).2 hCanceled hEnded
  | _ => trivial

end Holds

end Told

open Told

variable {config : Config} {allow : World → Tag → Op → Choice → Prop} {t : Tag} {k : Told}
  {s s' : Recorded}

theorem of_listed {q : AgreementQuery} {rows : List (IndexingAgreementId × AgreementRow)}
    {w w' : World} {choice : Choice} (hExec : w.exec (.select q) choice = some (.ok rows, w'))
    {P : IndexingAgreementId → Prop} (h : ∀ id row, w.row id = some row →
      q.selects w.now w.requests id row = true → P id) : ∀ id ∈ rows.map (·.1), P id := by
  intro id hId
  obtain ⟨p, hp, rfl⟩ := List.mem_map.mp hId
  obtain ⟨hRow, hSelects⟩ := exec_select_row hExec hp
  exact h p.1 p.2 hRow hSelects

theorem holds_after_select {q : AgreementQuery} {r : Res (.select q)} {choice : Choice}
    (hInv : SlotsKept s) (hGrows : RecordGrows s s') (h : k.Holds t s')
    (hExec : s.1.exec (.select q) choice = some (r, s'.1)) :
    (k.after (.select q) r).Holds t s' := by
  cases q with
  | acceptedOnChain =>
    cases r with
    | error _ => exact h
    | ok rows =>
      refine h.addSettled (of_listed hExec fun id row hRow hSelects => ?_)
      exact (settled_of_accepted hInv hRow (of_decide_eq_true hSelects)).mono hGrows
  | cancelling batchSize maxAttempts minAgeMinutes =>
    cases r with
    | error _ => exact h
    | ok rows =>
      refine h.addSettled (of_listed hExec fun id row hRow hSelects => ?_)
      simp only [AgreementQuery.selects, Bool.and_eq_true, decide_eq_true_eq] at hSelects
      exact (settled_of_cancelling hInv hRow hSelects.1.1).mono hGrows
  | awaitingReplacement batchSize =>
    cases r with
    | error _ => exact h
    | ok rows =>
      refine h.addOver (of_listed hExec fun id row hRow hSelects => ?_)
      simp only [AgreementQuery.selects, Bool.and_eq_true, decide_eq_true_eq] at hSelects
      exact (over_of_awaiting hInv hRow hSelects.1 hSelects.2).mono hGrows
  | _ => exact h

theorem holds_after {o : Op} {r : Res o} (hInv : SlotsKept s) (h : k.Holds t s)
    (hOp : (recordedServices config (Consistently config allow)).Performs t s o r s') :
    (k.after o r).Holds t s' := by
  have hGrows := recordGrows_of_performs hInv hOp
  have hPerformed := performed_of_recorded hOp
  obtain ⟨⟨choice, -, hExec⟩, hRecord⟩ := System.observed_performs hOp
  have hSame : s'.1.pinned = s.1.pinned → k.Holds t s' :=
    fun hPinned => h.mono hGrows fun _ => hPinned
  have hPinned : (∀ since pinned, o ≠ .getChanged since pinned) → s'.1.pinned = s.1.pinned := by
    intro hOther
    rcases hPerformed.effect.changes.pinned with hEq | ⟨since, rfl, -⟩
    · exact hEq
    · exact absurd rfl (hOther since none)
  cases o with
  | select q => exact holds_after_select hInv hGrows (hSame (hPinned nofun)) hExec
  | agreementOnChain id =>
    have hKept := hSame (hPinned nofun)
    match r with
    | .error _ => exact hKept
    | .ok found =>
      obtain ⟨hFound, -⟩ := chainRead_ok hExec
      change Holds t (if _ then _ else _) s'
      split
      · rename_i hOver
        have hNew : ∀ id' ∈ [id], Over s' id' := ?_
        · exact hKept.addOver hNew
        intro id' hId'
        obtain rfl := List.mem_singleton.mp hId'
        rcases h.settled _ hOver.2 with hAccepted | hMarked
        · have hEnded := OnChain.isEnded_of_read hAccepted (hFound ▸ hOver.1)
          have hShows : id' ∈ s.1.showsEnded (.agreementOnChain id') (.ok found) s'.1 := by
            change id' ∈ if _ then _ else _
            rw [if_pos ⟨hOver.1, hEnded⟩]
            exact List.mem_singleton.mpr rfl
          refine .inl ?_
          rw [hRecord]
          exact List.mem_append_right _ hShows
        · exact .inr (hMarked.mono hGrows.world)
      · exact hKept
  | getChanged since pinned =>
    match r with
    | .error _ => exact hSame (by rw [exec_getChanged_error hExec])
    | .ok response =>
      have hTag : t = .chainListener := hPerformed.pre
      refine ⟨fun id hId => (h.settled id hId).mono hGrows,
        fun id hId => (h.foundOver id hId).mono hGrows,
        fun x hx => ⟨hTag, fun hCanceled hEnded => ?_⟩⟩
      rw [hRecord]
      refine List.mem_append_right _ (List.mem_map.mpr ⟨x, List.mem_filter.mpr ⟨hx, ?_⟩, rfl⟩)
      exact Bool.and_eq_true_iff.mpr ⟨hCanceled, decide_eq_true hEnded⟩
  | _ => exact hSame (hPinned nofun)

/-- A program that knows what frees the slots it frees. -/
def Informs {α : Type} (post : Told → α → Prop) (p : Act α) (k : Told) : Prop :=
  p.Informed Told.after Told.Suffices post k

theorem keeps_of_informs {β : Type} {post : Told → β → Prop} {p : Act β}
    (h : Informs post p {}) :
    slots.Keeps (recordedServices config (Consistently config allow)) t (fun _ _ => True) p s :=
  .of_informed (slots_sound config allow)
    (fun hRely hHolds => hHolds.mono hRely.1 hRely.2) (fun hHolds hNeeds => hHolds.pre hNeeds)
    (fun hInv _ hHolds hOp => holds_after hInv hHolds hOp) h (.init t s)

end Told

section Rules

variable {α β : Type} {post : Told → α → Prop} {post' : Told → β → Prop} {k k' : Told}

/-- What a program knows of agreements it goes on knowing. -/
structure Told.Extends (k k' : Told) : Prop where
  settled : k.settled ⊆ k'.settled
  foundOver : k.foundOver ⊆ k'.foundOver

theorem Told.Extends.refl (k : Told) : k.Extends k := ⟨List.Subset.refl _, List.Subset.refl _⟩

theorem Told.Extends.trans {k'' : Told} (h : k.Extends k') (h' : k'.Extends k'') : k.Extends k'' :=
  ⟨List.Subset.trans h.settled h'.settled, List.Subset.trans h.foundOver h'.foundOver⟩

theorem Told.extends_after (k : Told) (o : Op) (r : Res o) : k.Extends (k.after o r) := by
  unfold Told.after
  split
  · exact ⟨List.subset_append_right _ _, List.Subset.refl _⟩
  · exact ⟨List.subset_append_right _ _, List.Subset.refl _⟩
  · exact ⟨List.Subset.refl _, List.subset_append_right _ _⟩
  · split
    · exact ⟨List.Subset.refl _, List.subset_cons_self _ _⟩
    · exact .refl k
  · exact ⟨List.Subset.refl _, List.Subset.refl _⟩
  · exact .refl k

theorem informs_pure {a : α} (h : post k a) : Informs post (pure a) k := h

theorem informs_bind {p : Act α} {f : α → Act β} (h : Informs post p k)
    (hNext : ∀ a k', k.Extends k' → post k' a → Informs post' (f a) k') :
    Informs post' (p >>= f) k := by
  refine Prog.Informed.bind ((Prog.Informed.frame (R := Told.Extends) .refl .trans
    Told.extends_after h).mono fun k' a hEnd => ?_)
  exact hNext a k' hEnd.1 hEnd.2

theorem informs_call {o : Op} {f : Res o → Act β} (hSuffices : k.Suffices o)
    (h : ∀ r, Informs post' (f r) (k.after o r)) : Informs post' (call o >>= f) k :=
  ⟨hSuffices, h⟩

/-- The operations that free no slot and read no page. -/
def Op.idle : Op → Bool
  | .applyReconciliation .. | .applyReconciliationBatch _ | .getChanged .. => false
  | .update _ u => !u.frees
  | _ => true

theorem Told.page_after {o : Op} (r : Res o) (h : o.idle = true) : (k.after o r).page = k.page := by
  unfold Told.after
  split
  · rfl
  · rfl
  · rfl
  · split <;> rfl
  · cases h
  · rfl

theorem Told.suffices_of_idle {o : Op} (h : o.idle = true) : k.Suffices o := by
  cases o with
  | update id u =>
    intro hFrees
    simp only [Op.idle, hFrees] at h
    cases h
  | applyReconciliation | applyReconciliationBatch => cases h
  | _ => trivial

theorem informs_idle {p : Act α} (hp : p.OnlyOps fun o => o.idle = true) :
    Informs (fun k' _ => k'.page = k.page) p k := by
  change p.Informed Told.after Told.Suffices _ k
  refine .of_onlyOps (Q := fun k' : Told => k'.page = k.page) ?_ ?_ hp rfl
  · exact fun ho _ => Told.suffices_of_idle ho
  · exact fun r ho hPage => (Told.page_after r ho).trans hPage

theorem idle_of_minor {p : Act α} (hp : Minor p) : p.OnlyOps fun o => o.idle = true := by
  refine Prog.OnlyOps.mono (fun o ho => ?_) hp
  cases o <;> first | exact ho | cases ho

theorem idle_of_commits {p : Act α} (hp : p.OnlyOps fun o => o.commits = true) :
    p.OnlyOps fun o => o.idle = true := by
  refine Prog.OnlyOps.mono (fun o ho => ?_) hp
  cases o <;> first | exact ho | rfl

theorem informs_minor {p : Act α} (hp : Minor p) : Informs (fun k' _ => k'.page = k.page) p k :=
  informs_idle (idle_of_minor hp)

theorem informs_retries {id : IndexingAgreementId} {p : Act α} (hp : Retries [id] p)
    (hOver : id ∈ k.foundOver) : Informs (fun k' _ => id ∈ k'.foundOver) p k := by
  change p.Informed Told.after Told.Suffices _ k
  refine .of_onlyOps (Q := fun k' : Told => id ∈ k'.foundOver) (fun {k' o} ho hOver' => ?_) ?_ hp
    hOver
  · cases o with
    | update id' u =>
      intro _
      rw [List.mem_singleton.mp ho.1]
      exact hOver'
    | applyReconciliation id' applyAccept cancel =>
      change id' ∈ k'.foundOver
      rw [List.mem_singleton.mp ho.1]
      exact hOver'
    | _ => trivial
  · exact fun {k' o} r _ hOver' => (k'.extends_after o r).foundOver hOver'

theorem informs_forEach {body : β → Act Unit} {xs : List β} {P : β → Told → Prop}
    (hMono : ∀ {x k k'}, k.Extends k' → P x k → P x k')
    (hBody : ∀ x k, P x k → Informs (fun _ _ => True) (body x) k) (h : ∀ x ∈ xs, P x k) :
    Informs (fun _ _ => True) (Prog.forEach xs body) k := by
  induction xs generalizing k with
  | nil => exact informs_pure trivial
  | cons x xs ih =>
    refine informs_bind (hBody x k (h x (List.mem_cons_self ..))) fun _ k' hExtends _ => ?_
    exact ih fun y hy => hMono hExtends (h y (List.mem_cons_of_mem _ hy))

end Rules

section Cancels

variable {config : Config} {agreement : IndexingAgreement} {reason : CancelReason} {k : Told}

theorem Told.over_after {id : IndexingAgreementId} {found : AgreementOnChain}
    (hSettled : id ∈ k.settled) (hNotLive : found ≠ .live) :
    id ∈ (k.after (.agreementOnChain id) (.ok found)).foundOver := by
  change id ∈ (if _ then _ else _ : Told).foundOver
  rw [if_pos ⟨hNotLive, hSettled⟩]
  exact List.mem_cons_self ..

theorem informs_cancelAgreementOnChain (hSettled : agreement.id ∈ k.settled) :
    Informs (fun k' cancel => cancel.settled = true → agreement.id ∈ k'.foundOver)
      (cancelAgreementOnChain agreement) k := by
  unfold cancelAgreementOnChain
  split
  · exact informs_pure nofun
  · refine informs_call trivial fun r => ?_
    split
    · exact informs_pure nofun
    · refine informs_call trivial fun r => ?_
      split
      · exact informs_pure fun _ => Told.over_after hSettled nofun
      · exact informs_pure fun _ => Told.over_after hSettled nofun
      · exact informs_pure nofun
      · exact informs_pure nofun

theorem informs_cancelIfLive (hSettled : agreement.id ∈ k.settled) :
    Informs (fun k' cancel => cancel.settled = true → agreement.id ∈ k'.foundOver)
      (cancelIfLive agreement) k := by
  refine informs_call trivial fun r => ?_
  split
  · exact informs_pure nofun
  · exact informs_cancelAgreementOnChain ((k.extends_after _ _).settled hSettled)
  · rename_i found hNotLive
    exact informs_pure fun _ => Told.over_after hSettled hNotLive

theorem informs_finishMarkedCancel {cancel : LiveCancel}
    (h : cancel.settled = true → agreement.id ∈ k.foundOver) :
    Informs (fun k' started => started ≠ .mayBeLive → agreement.id ∈ k'.foundOver)
      (finishMarkedCancel config agreement reason cancel) k := by
  cases cancel with
  | notLive byIndexer => exact informs_pure fun _ => h rfl
  | ended txHash =>
    refine (informs_retries settlesFor_finishMarkedCancel.settles.retries (h rfl)).mono ?_
    exact fun k' started hOver _ => hOver
  | readFailed | cancelFailed | unconfirmed => exact informs_pure fun h => absurd rfl h

theorem informs_sendMarkedCancel (hSettled : agreement.id ∈ k.settled) :
    Informs (fun k' started => started ≠ .mayBeLive → agreement.id ∈ k'.foundOver)
      (sendMarkedCancel config agreement reason) k :=
  informs_bind (informs_cancelIfLive hSettled) fun _ _ _ hFound =>
    informs_finishMarkedCancel hFound

theorem informs_replaceAbandoned (hOver : agreement.id ∈ k.foundOver) :
    Informs (fun _ _ => True) (Liveness.replaceAbandoned agreement) k := by
  refine informs_bind (informs_minor minor_queueReplacement) fun queued k' hExtends _ => ?_
  split
  · exact informs_call (fun _ => hExtends.foundOver hOver) fun _ => informs_pure trivial
  · exact informs_pure trivial

theorem informs_cancelAndReassess (hSettled : agreement.id ∈ k.settled) :
    Informs (fun _ _ => True) (Liveness.cancelAndReassess config agreement) k := by
  unfold Liveness.cancelAndReassess
  split
  · exact informs_pure trivial
  · refine informs_call nofun fun r => ?_
    split
    · exact informs_pure trivial
    · refine informs_bind (informs_sendMarkedCancel hSettled) fun started k1 _ hFound => ?_
      refine informs_call trivial fun _ => ?_
      split
      · exact informs_replaceAbandoned (hFound nofun)
      · exact informs_pure trivial
      · have hOver : agreement.id ∈ k1.foundOver := hFound nofun
        have hNote : Informs (fun _ _ => True) (Liveness.noteSeenEnded agreement) k1 := by
          refine informs_call (fun _ => hOver) fun r => ?_
          split <;> exact informs_pure trivial
        refine informs_bind hNote fun noted k2 hExtends _ => ?_
        split
        · exact informs_replaceAbandoned (hExtends.foundOver hOver)
        · exact informs_pure trivial

theorem informs_check : Informs (fun _ _ => True) (Liveness.check config) k := by
  have hEach : ∀ (agreements : List IndexingAgreement) k, (∀ a ∈ agreements, a.id ∈ k.settled) →
      Informs (fun _ _ => True) (Liveness.checkEach config agreements) k := by
    intro agreements
    induction agreements with
    | nil => exact fun _ _ => informs_pure trivial
    | cons agreement rest ih =>
      intro k hSettled
      have hRest : ∀ a ∈ rest, a.id ∈ k.settled :=
        fun a ha => hSettled a (List.mem_cons_of_mem _ ha)
      refine informs_call trivial fun stale => ?_
      split
      · refine informs_bind (informs_cancelAndReassess (hSettled _ (List.mem_cons_self ..)))
          fun _ k' hExtends _ => ?_
        exact ih k' fun a ha => hExtends.settled (hRest a ha)
      · exact ih k hRest
  refine informs_call trivial fun r => ?_
  match r with
  | .error _ => exact informs_pure trivial
  | .ok rows =>
    refine hEach _ _ fun a ha => List.mem_append_left _ ?_
    obtain ⟨p, hp, rfl⟩ := List.mem_map.mp ha
    exact List.mem_map.mpr ⟨p, hp, rfl⟩

theorem informs_retryCancel {row : CancellingAgreement} {chainNow : Option Nat}
    (hSettled : row.agreement.id ∈ k.settled) :
    Informs (fun _ _ => True) (retryCancel config row chainNow) k := by
  have hSettle : ∀ txHash byIndexer k, row.agreement.id ∈ k.foundOver →
      Informs (fun _ _ => True) (settleCancel config row txHash byIndexer chainNow) k := by
    intro txHash byIndexer k hOver
    exact (informs_retries retries_settleCancel hOver).mono fun _ _ _ => trivial
  refine informs_bind (informs_cancelIfLive hSettled) fun cancel k' _ hFound => ?_
  split
  · exact informs_call nofun fun _ => informs_pure trivial
  · exact informs_call nofun fun _ => informs_pure trivial
  · exact informs_call nofun fun _ => informs_pure trivial
  · exact hSettle _ _ k' (hFound rfl)
  · exact hSettle _ _ k' (hFound rfl)

theorem informs_retryEach {chainNow : Option Nat} {started : Nat}
    {rows : List CancellingAgreement} (hSettled : ∀ row ∈ rows, row.agreement.id ∈ k.settled) :
    Informs (fun _ _ => True) (retryEach config chainNow started rows) k := by
  induction rows generalizing k with
  | nil => exact informs_pure trivial
  | cons row rest ih =>
    refine informs_call trivial fun now => ?_
    split
    · exact informs_pure trivial
    · refine informs_bind (informs_retryCancel (hSettled _ (List.mem_cons_self ..)))
        fun _ k1 hExtends _ => ?_
      refine informs_bind (ih fun row hRow => ?_) fun _ _ _ _ => informs_pure trivial
      exact hExtends.settled (hSettled row (List.mem_cons_of_mem _ hRow))

theorem informs_cancelRetryCycle : Informs (fun _ _ => True) (cancelRetryCycle config) k := by
  have hRetry : Informs (fun _ _ => True) (retryCancellingAgreements config) k := by
    refine informs_call trivial fun r => ?_
    match r with
    | .error _ => exact informs_pure trivial
    | .ok rows =>
      dsimp only
      split
      · exact informs_pure trivial
      · have hTime : Minor (readChainNow (rows.map fun r => r.2.cancelling r.1)) := by
          unfold readChainNow
          split
          · refine .ask rfl fun r => ?_
            split <;> exact .pure _
          · exact .pure _
        refine informs_bind (informs_minor hTime) fun chainNow k1 hExtends _ => ?_
        refine informs_call trivial fun started => ?_
        refine informs_bind (informs_retryEach fun row hRow => hExtends.settled ?_)
          fun _ _ _ _ => informs_pure trivial
        obtain ⟨p, hp, rfl⟩ := List.mem_map.mp hRow
        exact List.mem_append_left _ (List.mem_map.mpr ⟨p, hp, rfl⟩)
  refine informs_bind hRetry fun _ k1 _ _ => informs_call trivial fun r => ?_
  match r with
  | .error _ => exact informs_pure trivial
  | .ok rows =>
    refine informs_forEach (P := fun (a : IndexingAgreement) k => a.id ∈ k.foundOver)
      (fun hExtends hOver => hExtends.foundOver hOver)
      (fun a k hOver => informs_replaceAbandoned hOver)
      fun a ha => List.mem_append_left _ ?_
    obtain ⟨p, hp, rfl⟩ := List.mem_map.mp ha
    exact List.mem_map.mpr ⟨p, hp, rfl⟩

end Cancels

section Listener

open Listener

variable {config : Config} {k : Told}

/-- An item that ends its agreement comes from a snapshot that shows it cancelled. -/
def ShownBy (snapshots : List AgreementStateSnapshot) (item : ReconciliationItem) : Prop :=
  item.cancel.isSome = true →
    ∃ x ∈ snapshots, x.agreementId = item.agreementId ∧ x.state.isCanceled = true

theorem shownBy_reconciliationItem {snapshots : List AgreementStateSnapshot}
    {x : AgreementStateSnapshot} {a : IndexingAgreement} (hx : x ∈ snapshots)
    (hId : a.id = x.agreementId) : ShownBy snapshots (reconciliationItem x a) := by
  intro hCancel
  refine ⟨x, hx, hId.symm, ?_⟩
  change (cancelKind x a).isSome = true at hCancel
  unfold cancelKind at hCancel
  split at hCancel
  · cases hCancel
  · split at hCancel
    · rename_i hState
      rw [hState]
      rfl
    · rename_i hState
      rw [hState]
      rfl
    · cases hCancel
    · cases hCancel

theorem yields_prepareReconciliation {snapshot : AgreementStateSnapshot}
    {agreement : Option IndexingAgreement} {queued : List (IndexingAgreementId × Nat)} :
    (prepareReconciliation snapshot agreement queued).Yields fun r =>
      ∀ prep, r.1 = .ok (some prep) →
        ∃ a, agreement = some a ∧ prep = ⟨reconciliationItem snapshot a, a⟩ := by
  have hDecide : ∀ a, (decideReconciliation snapshot a).Yields fun r =>
      ∀ prep, r = .ok (some prep) → prep = ⟨reconciliationItem snapshot a, a⟩ := by
    intro a
    unfold decideReconciliation
    split
    · intro prep hPrep
      cases hPrep
      rfl
    · split
      · refine .after _ fun r => ?_
        split <;> exact fun _ h => nomatch h
      · exact fun _ h => nomatch h
  cases agreement with
  | none => exact fun _ h => nomatch h
  | some a =>
    refine .after _ fun r => ?_
    split
    · exact fun _ h => nomatch h
    · refine .after _ fun r => ?_
      split
      · exact fun _ h => nomatch h
      · exact .bind (hDecide a) fun r hr prep hPrep => ⟨a, rfl, hr prep hPrep⟩

theorem yields_prepareEach {all snapshots : List AgreementStateSnapshot}
    {agreements : List IndexingAgreement} {work : PageWork} (hAll : snapshots ⊆ all)
    (h : ∀ prep ∈ work.prepared, ShownBy all prep.item) :
    (prepareEach snapshots agreements work).Yields fun r =>
      ∀ prep ∈ r.2.prepared, ShownBy all prep.item := by
  induction snapshots generalizing agreements work with
  | nil => exact h
  | cons x rest ih =>
    refine .after _ fun stopped => ?_
    split
    · exact h
    · refine .bind yields_prepareReconciliation fun r hr => ?_
      refine ih (fun y hy => hAll (List.mem_cons_of_mem _ hy)) fun prep hPrep => ?_
      unfold PageWork.add at hPrep
      split at hPrep
      · rename_i new hNew
        rcases List.mem_append.mp hPrep with hOld | hLast
        · exact h prep hOld
        · obtain rfl := List.mem_singleton.mp hLast
          obtain ⟨a, hFind, rfl⟩ := hr prep hNew
          have hId : a.id = x.agreementId := by simpa using List.find?_some hFind
          exact shownBy_reconciliationItem (hAll (List.mem_cons_self ..)) hId
      · exact h prep hPrep
      · exact h prep hPrep

theorem yields_preparePage {snapshots : List AgreementStateSnapshot}
    {liveChecks : List (IndexingAgreementId × Nat)} :
    (preparePage snapshots liveChecks).Yields fun r =>
      ∀ prep ∈ r.2.prepared, ShownBy snapshots prep.item := by
  refine .after _ fun r => ?_
  split <;> exact yields_prepareEach (List.Subset.refl _) fun _ h => absurd h List.not_mem_nil

theorem informs_reconcilePage {since : Cursor} {snapshots : List AgreementStateSnapshot}
    {liveChecks : List (IndexingAgreementId × Nat)} (hPage : k.page = snapshots) :
    Informs (fun _ _ => True) (reconcilePage config since snapshots liveChecks) k := by
  refine informs_bind ((informs_minor minor_preparePage).yields yields_preparePage)
    fun r k1 _ hPrepared => ?_
  obtain ⟨hSame, hShown⟩ := hPrepared
  dsimp only
  split
  · exact informs_pure trivial
  · have hApply : Informs (fun _ _ => True) (applyPage r.2) k1 := by
      unfold applyPage
      dsimp only
      split
      · exact informs_pure trivial
      · refine informs_call (fun item hItem => ?_) fun outcomes => ?_
        · obtain ⟨prep, hPrep, rfl⟩ := List.mem_map.mp hItem
          rw [hSame, hPage]
          exact hShown prep hPrep
        · split <;> exact informs_pure trivial
    refine informs_bind hApply fun applied k2 _ _ => informs_call trivial fun _ => ?_
    exact informs_bind (informs_minor (minor_finalizeEach _)) fun _ _ _ _ => informs_pure trivial

theorem informs_getChangedAgreements {since : Cursor} {pinned : Option Nat} :
    Informs (fun k' r => ∀ result, r = .ok result → k'.page = result.snapshots)
      (getChangedAgreements config since pinned) k := by
  refine informs_call trivial fun r => ?_
  match r with
  | .error _ => exact informs_pure nofun
  | .ok response =>
    dsimp only
    split
    · exact informs_pure nofun
    · refine informs_bind (informs_minor minor_checkSkew) fun skew k1 _ hPage => ?_
      split
      · exact informs_pure nofun
      · refine informs_pure fun result hResult => ?_
        rw [hPage]
        change pageSnapshots since response = _
        simp only [pageSnapshots, hResult]

theorem informs_drainPages (remaining : Nat) (since : Cursor) (pinned : Option Nat)
    (memory : ListenerMemory) (outcome : DrainOutcome) (k : Told) :
    Informs (fun _ _ => True) (drainPages config remaining since pinned memory outcome) k := by
  induction remaining generalizing since pinned memory outcome k with
  | zero => exact informs_pure trivial
  | succ remaining ih =>
    refine informs_bind informs_getChangedAgreements fun r k1 _ hPage => ?_
    split
    · exact informs_pure trivial
    · refine informs_bind (informs_reconcilePage (hPage _ rfl)) fun report k2 _ _ => ?_
      dsimp only
      split
      · exact informs_pure trivial
      · refine informs_bind (informs_idle (idle_of_commits commits_commitPage)) fun r k3 _ _ => ?_
        split
        · exact informs_pure trivial
        · exact ih _ _ _ _ _

theorem informs_poll {memory : ListenerMemory} :
    Informs (fun _ _ => True) (poll config memory) k := by
  refine informs_bind (informs_drainPages _ _ _ _ _ k) fun r k1 _ _ => ?_
  dsimp only
  split
  · exact informs_call trivial fun _ => informs_pure trivial
  · split
    · exact informs_call trivial fun _ => informs_pure trivial
    · refine informs_bind (informs_minor minor_announce) fun _ k2 _ _ => ?_
      refine informs_bind (informs_minor minor_sweepCancellations) fun _ k3 _ _ => ?_
      exact informs_call trivial fun _ => informs_pure trivial

end Listener

section Pass

open Reassess

variable {config : Config} {request : IndexingRequestId} {k : Told}

theorem idle_addEach {b : Baseline} {now : Nat} (indexers : List IndexerId)
    (olds : List IndexingAgreement) :
    (addEach config request b now indexers olds).OnlyOps fun o => o.idle = true := by
  have hRegister : ∀ indexer replaces,
      (registerNew config request b now indexer replaces).OnlyOps fun o => o.idle = true := by
    intro indexer replaces
    refine .ask rfl fun new => ?_
    cases replaces <;>
      exact .ask rfl fun r => by cases r <;> exact .pure _
  induction indexers generalizing olds with
  | nil => exact .pure _
  | cons indexer rest ih =>
    refine .bind (hRegister _ _) fun r => ?_
    split
    · exact ih _
    · refine .ask rfl fun r => ?_
      split
      · exact ih _
      · exact .bind (ih _) fun _ => .pure _

theorem idle_reassess :
    (Reassess.handle config request).OnlyOps fun o => o.idle = true := by
  have hCarryOut : ∀ b diff,
      (carryOut config request b diff).OnlyOps fun o => o.idle = true := by
    intro b diff
    refine .bind (idle_of_minor asks_resolveDeadlineClock.minor) fun r => ?_
    split
    · exact .pure _
    · refine .ask rfl fun order => .bind (idle_addEach _ _) fun _ =>
        .bind (idle_of_minor asks_announceProposed.minor) fun _ =>
        .bind (.forEach (fun _ => idle_of_minor minor_cancelUnpaired) _) fun _ => ?_
      dsimp only
      split <;> exact .pure _
  refine .bind (idle_of_minor asks_readBaseline.minor) fun r => ?_
  split
  · exact .pure _
  · exact .pure _
  · split
    · exact .pure _
    · refine .bind (idle_of_minor asks_selectTarget.minor) fun r => ?_
      split
      · exact .pure _
      · refine .bind (idle_of_minor asks_signalShortfall.minor) fun _ => ?_
        split
        · exact .pure _
        · exact hCarryOut _ _

end Pass

theorem slots_starts (config : Config) (allow : World → Tag → Op → Choice → Prop) :
    slots.Starts (recordedServices config (Consistently config allow)) := by
  have hIdle : ∀ {β : Type} {p : Act β}, (p.OnlyOps fun o => o.idle = true) →
      Informs (fun _ _ => True) (p >>= fun _ => pure ()) {} := fun hp =>
    informs_bind (informs_idle hp) fun _ _ _ _ => informs_pure trivial
  intro s seed th _ hStart
  change seed.thread config s.1 = some th at hStart
  have hInforms : Informs (fun _ _ => True) th.prog {} := ?_
  · exact keeps_of_informs hInforms
  cases seed with
  | poll =>
    cases hStart
    exact informs_poll
  | job job =>
    simp only [Seed.thread, Option.ite_none_right_eq_some, Option.some.injEq] at hStart
    obtain ⟨-, rfl⟩ := hStart
    cases job with
    | sendIndexingAgreementProposal id request => exact hIdle (idle_of_minor minor_sendProposal)
    | submitOffer id request => exact hIdle (idle_of_minor minor_submitOffer)
    | reassessIndexingRequest request => exact hIdle idle_reassess
    | cancelRejectedAgreementOnChain id accept =>
      exact hIdle (idle_of_minor minor_cancelRejected)
  | expirationScan =>
    cases hStart
    exact (informs_minor minor_scan).mono fun _ _ _ => trivial
  | livenessCheck =>
    cases hStart
    exact informs_check
  | cancelRetry =>
    cases hStart
    exact informs_cancelRetryCycle

section Runs

variable {config : Config} {now chainTime : Nat} {requests : Requests}

/-- The configuration before anything has run, with nothing shown. -/
abbrev freshRecord (now chainTime : Nat) (requests : Requests) :
    Recorded × List (Thread Tag Op Res Unit) :=
  ((World.fresh now chainTime requests, []), [])

theorem slotsKept_of_run {c : (recordedServices config fun _ _ _ _ => True).Config}
    (hRun : (recordedServices config fun _ _ _ _ => True).Run
      (freshRecord now chainTime requests) c) : SlotsKept c.1 := by
  have hConsistently := Discipline.run_observed (consistency_sound config _)
    (consistency_starts config _) (consistent_fresh now chainTime requests) hRun
  refine (Discipline.run_restrict (slots_sound config fun _ _ _ _ => True)
    (slots_starts config fun _ _ _ _ => True) ⟨?_, ?_, ?_⟩ hConsistently).1
  · exact consistent_fresh now chainTime requests
  · exact fun id row hRow => by cases hRow
  · exact nofun

/-- Whenever a pass reads the slots its request's abandoned agreements hold and one of them is not
among them, a read of the chain or a snapshot of the subgraph had shown that it ended. -/
theorem slot_held_until_end_shown {c : (recordedServices config fun _ _ _ _ => True).Config}
    (hRun : (recordedServices config fun _ _ _ _ => True).Run
      (freshRecord now chainTime requests) c)
    {request : IndexingRequestId} {choice : Choice} {w' : World}
    {rows : List (IndexingAgreementId × AgreementRow)}
    (hRead : c.1.1.exec (.select (.holdingSlots request)) choice = some (.ok rows, w'))
    {id : IndexingAgreementId} {row : AgreementRow} (hRow : c.1.1.row id = some row)
    (hRequest : row.indexingRequestId = request) (hAbandoned : row.abandoned = true)
    (hFree : id ∉ rows.map (·.1)) : id ∈ c.1.2 ∧ (c.1.1.chain id).IsEnded := by
  have hKept := slotsKept_of_run hRun
  subst hRequest
  have hShown : id ∈ c.1.2 := by
    refine ((hKept.rows id row hRow).held hAbandoned).resolve_right fun hHolds => hFree ?_
    have hListed := exec_select_complete hRead nofun rfl hRow (hHolds.selects _ _ _)
    exact List.mem_map.mpr ⟨_, hListed, rfl⟩
  exact ⟨hShown, hKept.shown id hShown⟩

/-- Agreement 10 is accepted; a liveness check finds its indexer gone, cancels it on the chain,
reads that it is not live any more and marks it. -/
def abandonedMoves : Moves :=
  offerMoves 10 1 ++ submitMoves 10 ++ acceptMoves ++
  ([.drop 0, .start .livenessCheck, .op 0 (.rows [10]), .op 0 (.answer true), .op 0 .ok, .op 0 .ok,
     .op 0 (.mined none true), .op 0 .ok, .op 0 .ok] : Moves)

/-- A pass may then read the request as having no slot held, and the end was shown before. -/
theorem slot_free_once_end_shown :
    ∃ c : (recordedServices sampleConfig fun _ _ _ _ => True).Config,
      (recordedServices sampleConfig fun _ _ _ _ => True).Run
        (freshRecord 5 5 sampleRequests) c ∧
      (∃ row w', c.1.1.row 10 = some row ∧ row.abandoned = true ∧
        c.1.1.exec (.select (.holdingSlots row.indexingRequestId)) (.rows []) =
          some (.ok [], w')) ∧
      10 ∈ c.1.2 ∧ (c.1.1.chain 10).IsEnded := by
  have hMoves : ((recordedServices sampleConfig fun _ _ _ _ => True).runMoves
      (fun _ _ _ _ => true) (freshRecord 5 5 sampleRequests) abandonedMoves).any (fun c =>
        (c.1.1.row 10).any fun row => row.abandoned &&
          decide ((AgreementQuery.holdingSlots row.indexingRequestId).Lists c.1.1.now c.1.1.requests
            c.1.1.agreements [])) = true := by
    decide +kernel
  obtain ⟨c, hRun, hEnd⟩ :=
    System.exists_run_of_moves (fun _ _ _ _ _ => trivial) abandonedMoves _ hMoves
  simp only [Option.any_eq_true, Bool.and_eq_true, decide_eq_true_eq] at hEnd
  obtain ⟨row, hRow, hAbandoned, hLists⟩ := hEnd
  have hRead : c.1.1.exec (.select (.holdingSlots row.indexingRequestId)) (.rows []) =
      some (.ok [], c.1.1) := if_pos hLists
  exact ⟨c, hRun, ⟨row, c.1.1, hRow, hAbandoned, hRead⟩,
    slot_held_until_end_shown hRun hRead hRow rfl hAbandoned List.not_mem_nil⟩

end Runs

end Dipper
