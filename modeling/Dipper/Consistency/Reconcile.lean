import Dipper.Consistency.Services

/-! Reconciliation keeps to the discipline: the items of a page say what the pinned subgraph shows
of the chain, chain checks are queued for rows dipper had closed, and a pending cancellation goes
only once the agreement it was for has left its group. -/

namespace Dipper

open World Listener

variable {config : Config} {allow : World → Tag → Op → Choice → Prop} {w w' : World}
  {x : AgreementStateSnapshot} {a : IndexingAgreement} {queued : List (IndexingAgreementId × Nat)}

/-- What a snapshot says of the chain as it was at the pinned block. -/
structure Shows (w : World) (x : AgreementStateSnapshot) : Prop where
  accepted : x.state = .accepted ∨ x.acceptedAt ≠ 0 → (w.pinned.chain x.agreementId).WasAccepted
  byIndexer : x.state = .canceledByServiceProvider → (w.pinned.chain x.agreementId).IsEnded
  byPayer : x.state = .canceledByPayer → (w.pinned.chain x.agreementId).WasAccepted →
    (w.pinned.chain x.agreementId).IsEnded
  reached : x.acceptedAt ≠ 0 → x.state.reachedAccepted = true
  time : x.acceptedAt ≠ 0 → (w.pinned.chain x.agreementId).acceptedAt = some x.acceptedAt
  untold : x.state = .accepted → x.acceptedAt = 0 →
    (w.pinned.chain x.agreementId).acceptedAt = some 0 ∨ x.agreementId ∈ w.misread
  unended : x.state = .accepted → ¬ (w.pinned.chain x.agreementId).IsEnded

/-- A row that reflects the chain still does after its timestamps were lost in parsing. -/
theorem Shows.of_reflects {s : AgreementStateSnapshot}
    (hReflects : Reflects (w.pinned.chain s.agreementId) s) (hReads : s.ReadsAs x)
    (hTold : s.acceptedAt ≠ x.acceptedAt → x.agreementId ∈ w.misread) : Shows w x := by
  obtain ⟨hx, hAt, -⟩ := hReads
  have hId : x.agreementId = s.agreementId := by rw [hx]
  have hState : x.state = s.state := by rw [hx]
  have hTime : x.acceptedAt ≠ 0 → x.acceptedAt = s.acceptedAt := hAt.resolve_right
  have hUntold : x.acceptedAt = 0 → s.acceptedAt = 0 ∨ s.agreementId ∈ w.misread := by
    intro hZero
    by_cases hEq : s.acceptedAt = x.acceptedAt
    · exact .inl (hEq.trans hZero)
    · exact .inr (hId ▸ hTold hEq)
  cases hChain : w.pinned.chain s.agreementId with
  | absent =>
    rw [hChain] at hReflects
    exact hReflects.elim
  | offered | withdrawn =>
    rw [hChain] at hReflects
    obtain ⟨hNot, hZero⟩ := hReflects
    have hNever : x.acceptedAt = 0 := by
      by_contra hNe
      exact hNe ((hTime hNe).trans hZero)
    have hOpen : s.state ≠ .accepted := by
      rcases hNot with h | h <;> rw [h] <;> nofun
    refine ⟨?_, ?_, ?_, fun h => absurd hNever h, fun h => absurd hNever h, ?_, ?_⟩ <;>
      simp only [hId, hState, hChain]
    · rintro (h | h)
      · exact absurd h hOpen
      · exact absurd hNever h
    · intro h
      rcases hNot with h' | h' <;> rw [h'] at h <;> cases h
    · exact fun _ h => h.elim
    · exact fun h => absurd h hOpen
    · exact fun _ h => h
  | accepted acceptedAt =>
    rw [hChain] at hReflects
    obtain ⟨hAccepted, hSince⟩ := hReflects
    refine ⟨?_, ?_, ?_, ?_, ?_, ?_, ?_⟩ <;> simp only [hId, hState, hChain]
    · exact fun _ => trivial
    · intro h
      rw [hAccepted] at h
      cases h
    · intro h
      rw [hAccepted] at h
      cases h
    · exact fun _ => by rw [hAccepted]; rfl
    · exact fun h => by rw [hTime h, hSince]; rfl
    · exact fun _ h => (hUntold h).imp_left fun h' => by rw [← hSince, h']; rfl
    · exact fun _ h => h
  | ended acceptedAt endedAt by' =>
    rw [hChain] at hReflects
    have hSince : s.state ≠ .accepted ∧ s.state.reachedAccepted = true ∧
        s.acceptedAt = acceptedAt := by
      cases by' <;> obtain ⟨h, hAt, -⟩ := hReflects <;> rw [h] <;> exact ⟨nofun, rfl, hAt⟩
    refine ⟨?_, ?_, ?_, ?_, ?_, ?_, ?_⟩ <;> simp only [hId, hState, hChain]
    · exact fun _ => trivial
    · exact fun _ => trivial
    · exact fun _ _ => trivial
    · exact fun _ => hSince.2.1
    · exact fun h => by rw [hTime h, hSince.2.2]; rfl
    · exact fun h => absurd h hSince.1
    · exact fun h => absurd h hSince.1

theorem Shows.isEnded (h : Shows w x) (hOver : x.state.isCanceled = true)
    (hAt : x.acceptedAt ≠ 0) : (w.pinned.chain x.agreementId).IsEnded := by
  cases hState : x.state with
  | notAccepted | accepted =>
    rw [hState] at hOver
    cases hOver
  | canceledByServiceProvider => exact h.byIndexer hState
  | canceledByPayer => exact h.byPayer hState (h.accepted (.inr hAt))

theorem Shows.mono (h : Shows w x) (hGrows : w.Grows w') (hPinned : w'.pinned = w.pinned) :
    Shows w' x := by
  refine ⟨?_, ?_, ?_, h.reached, ?_, ?_, ?_⟩ <;> rw [hPinned]
  · exact h.accepted
  · exact h.byIndexer
  · exact h.byPayer
  · exact h.time
  · exact fun hState hZero => (h.untold hState hZero).imp_right (hGrows.misread _)
  · exact h.unended

theorem Shows.wasAccepted (h : Shows w x) (hw : w.Consistent) (hAt : x.acceptedAt ≠ 0) :
    (w.chain x.agreementId).WasAccepted :=
  ((hw.pinned _).trans (hw.indexed _)).accepted (h.accepted (.inr hAt))

theorem Shows.carries (h : Shows w x) (hw : w.Consistent) (hState : x.state = .accepted) :
    w.Carries x.agreementId (if x.acceptedAt ≠ 0 then some ⟨x.acceptedAt, x.acceptedTx⟩
      else none) := by
  have hGrows := (hw.pinned x.agreementId).trans (hw.indexed x.agreementId)
  by_cases hAt : x.acceptedAt = 0
  · rw [if_neg (not_not.mpr hAt)]
    exact (h.untold hState hAt).imp_left (hGrows.acceptedAt 0)
  · rw [if_pos hAt]
    exact hGrows.acceptedAt _ (h.time hAt)

theorem accepted_of_appliesAccept (h : Shows w x) (hApplies : appliesAccept x a = true) :
    (w.pinned.chain x.agreementId).WasAccepted := by
  simp only [appliesAccept, Bool.and_eq_true, Bool.not_eq_true', Bool.and_eq_false_iff] at hApplies
  obtain ⟨⟨-, hReached⟩, hOffer⟩ := hApplies
  cases hState : x.state with
  | notAccepted => rw [hState] at hReached; cases hReached
  | accepted => exact h.accepted (.inl hState)
  | canceledByServiceProvider => exact (h.byIndexer hState).wasAccepted
  | canceledByPayer =>
    rcases hOffer with hNot | hAt
    · rw [hState] at hNot
      cases hNot
    · exact h.accepted (.inr (by simpa using hAt))

theorem status_of_appliesAccept (hApplies : appliesAccept x a = true) : a.status ∈ acceptFrom := by
  simp only [appliesAccept, Bool.and_eq_true, Bool.or_eq_true, decide_eq_true_eq] at hApplies
  rcases hApplies.1.1 with h | h <;> rw [h] <;> decide

/-- An agreement as it was read for the page, and what has become of it since. -/
structure World.PageRead (w : World) (a : IndexingAgreement) : Prop where
  row : ∃ row, a = row.agreement a.id ∧ (a.id, row) ∈ w.pageListed ∧ w.Read a.id row ∧
    (row.status = .acceptedOnChain → row.acceptedAt.isSome = true)
  tracked : (w.pinned.chain a.id).WasAccepted → ∀ statuses, StatusesHeld statuses →
    a.status ∈ statuses → w.Followed statuses a.id

theorem World.PageRead.knows (h : w.PageRead a) : w.Knows a := by
  obtain ⟨row, hEq, -, hRead, -⟩ := h.row
  exact ⟨row, hEq, hRead⟩

theorem World.PageRead.mono (h : w.PageRead a) (hGrows : w.Grows w') (hPage : w.SamePage w') :
    w'.PageRead a := by
  refine ⟨?_, fun hSeen statuses hHeld hMem => ?_⟩
  · obtain ⟨row, hEq, hListed, hRead, hRecorded⟩ := h.row
    rw [hPage.listed]
    exact ⟨row, hEq, hListed, hRead.mono hGrows, hRecorded⟩
  · rw [hPage.pinned] at hSeen
    exact hGrows.followed hHeld (h.tracked hSeen statuses hHeld hMem)

/-- The item made of a snapshot is true of the pinned chain. -/
theorem itemOk_of_shows (h : Shows w x) (hRead : w.PageRead a) (hId : a.id = x.agreementId) :
    ItemOk w (reconciliationItem x a) where
  made := ⟨x, a, rfl⟩
  accept hApplies := by
    refine hRead.tracked ?_ openStatuses (by decide) ?_
    · rw [hId]
      exact accepted_of_appliesAccept h hApplies
    · have hFrom : a.status ∈ acceptFrom := status_of_appliesAccept hApplies
      revert hFrom
      cases a.status <;> decide
  listed hApplies := by
    obtain ⟨row, hEq, hListed, -⟩ := hRead.row
    refine ⟨row, hListed, ?_⟩
    have hFrom : a.status ∈ acceptFrom := status_of_appliesAccept hApplies
    rw [hEq] at hFrom
    exact hFrom
  byIndexer hKind := by
    rw [show (reconciliationItem x a).agreementId = x.agreementId from hId]
    refine h.byIndexer ?_
    simp only [reconciliationItem, cancelKind] at hKind
    split at hKind
    · cases hKind
    · cases hState : x.state <;> rw [hState] at hKind <;> first | rfl | cases hKind
  byRequester hKind := by
    rw [show (reconciliationItem x a).agreementId = x.agreementId from hId]
    refine h.byPayer ?_
    simp only [reconciliationItem, cancelKind] at hKind
    split at hKind
    · cases hKind
    · cases hState : x.state <;> rw [hState] at hKind <;> first | rfl | cases hKind

/-- The accept of the agreement is on its row. -/
def World.Recorded (w : World) (id : IndexingAgreementId) : Prop :=
  ∃ row, w.row id = some row ∧ row.acceptedAt.isSome = true

theorem World.Recorded.mono {id : IndexingAgreementId} (h : w.Recorded id) (hGrows : w.Grows w') :
    w'.Recorded id := by
  obtain ⟨row, hRow, hAt⟩ := h
  obtain ⟨row', hRow', hRowGrows⟩ := hGrows.rows id row hRow
  exact ⟨row', hRow', hRowGrows.recorded hAt⟩

theorem World.AcceptStored.mono {id : IndexingAgreementId} (h : w.AcceptStored id)
    (hGrows : w.Grows w') : w'.AcceptStored id := by
  obtain ⟨row, hRow, hDone⟩ := h
  obtain ⟨row', hRow', hRowGrows⟩ := hGrows.rows id row hRow
  exact ⟨row', hRow', hDone.imp hRowGrows.recorded hRowGrows.status.unresponsive⟩

theorem eq_accepted_of_reached {state : AgreementState} (hReached : state.reachedAccepted = true)
    (hOpen : state.isCanceled = false) : state = .accepted := by
  revert hReached hOpen
  cases state <;> decide

section Dealt

variable {applied applied' : Prop}

theorem World.Dealt.mono (h : w.Dealt applied x) (hGrows : w.Grows w') (hPage : w.SamePage w')
    (hApplied : applied → applied') : w'.Dealt applied' x where
  live hState := by
    rcases h.live hState with hCheck | hFollowed | hApply
    · exact .inl (hGrows.checkQueued hCheck)
    · exact .inr (.inl (hGrows.followed (by decide) hFollowed))
    · exact .inr (.inr (hApplied hApply))
  accept hAt := by
    rcases h.accept hAt with hStored | hCheck | hApply | hClosed
    · exact .inl (hStored.mono hGrows)
    · exact .inr (.inl (hGrows.checkQueued hCheck))
    · exact .inr (.inr (.inl (hApplied hApply)))
    · rw [ClosedUnrecorded, hPage.listed, hPage.pinned]
      exact .inr (.inr (.inr hClosed))
  time hAt := (hGrows.chain _).acceptedAt _ (h.time hAt)

theorem World.Dealt.of_unaccepted (hShows : Shows w x)
    (hNever : ¬ (w.pinned.chain x.agreementId).WasAccepted) : w.Dealt applied x where
  live hState := absurd (hShows.accepted (.inl hState)) hNever
  accept hAt := absurd (hShows.accepted (.inr hAt)) hNever
  time hAt := absurd (hShows.accepted (.inr hAt)) hNever

theorem appliesAccept_of_time (hFrom : a.status = .created ∨ a.status = .expired)
    (hReached : x.state.reachedAccepted = true) (hAt : x.state = .accepted ∨ x.acceptedAt ≠ 0) :
    appliesAccept x a = true := by
  have hOffer : (x.state.isCanceled && x.acceptedAt == 0) = false := by
    rcases hAt with hState | hAt
    · rw [hState]
      rfl
    · simp [hAt]
  simp [appliesAccept, hFrom, hReached, hOffer]

/-- A snapshot is dealt with once the branches of its reconciliation have been taken. -/
theorem World.Dealt.of_decided (hw : w.Consistent) (hShows : Shows w x) (hRead : w.PageRead a)
    (hId : a.id = x.agreementId)
    (hCheck : endedButAccepted x a = true → w.CheckQueued x.agreementId)
    (hCancelling : a.status = .cancelling → x.acceptedAt ≠ 0 → w.Recorded x.agreementId)
    (hEnded : a.status.isTerminalCancel = true → x.state.isCanceled = true → x.acceptedAt ≠ 0 →
      w.Recorded x.agreementId) : w.Dealt (appliesAccept x a = true) x := by
  have hFollowed : x.state = .accepted → a.status ∈ settledStatuses →
      w.Followed settledStatuses x.agreementId := by
    intro hState hMem
    rw [← hId]
    refine hRead.tracked ?_ settledStatuses (by decide) hMem
    rw [hId]
    exact hShows.accepted (.inl hState)
  have hDealt : w.Recorded x.agreementId → w.AcceptStored x.agreementId :=
    fun ⟨row, hRow, hAt⟩ => ⟨row, hRow, .inl hAt⟩
  obtain ⟨row, hEq, hListed, hStored, hRecorded⟩ := hRead.row
  obtain ⟨row', hRow', hGrows⟩ := hStored.current
  have hStatus : a.status = row.status := by rw [hEq]; rfl
  rw [hId] at hListed hRow'
  have hKept : row.acceptedAt.isSome = true → w.Recorded x.agreementId :=
    fun hAt => ⟨row', hRow', hGrows.recorded hAt⟩
  refine ⟨fun hState => ?_, fun hAt => ?_, fun hAt => ?_⟩
  · have hReached : x.state.reachedAccepted = true := by rw [hState]; rfl
    cases hA : a.status with
    | created => exact .inr (.inr (appliesAccept_of_time (.inl hA) hReached (.inl hState)))
    | expired => exact .inr (.inr (appliesAccept_of_time (.inr hA) hReached (.inl hState)))
    | rejected | canceledByRequester =>
      exact .inl (hCheck (by simp [endedButAccepted, hA, hState, AgreementState.reachedAccepted,
        AgreementState.isCanceled]))
    | acceptedOnChain | cancelling | unresponsive | canceledByIndexer | abandonedByIndexer =>
      exact .inr (.inl (hFollowed hState (by rw [hA]; decide)))
  · have hReached := hShows.reached hAt
    have hAccepted : x.state.isCanceled = false → x.state = .accepted :=
      eq_accepted_of_reached hReached
    have hCheckQueued : (a.status = .rejected ∨ a.status = .canceledByRequester) →
        x.state.isCanceled = false → w.CheckQueued x.agreementId := by
      intro hA hOpen
      refine hCheck ?_
      simp [endedButAccepted, hA, hReached, hOpen]
    -- A row that was closed without its accept, or has it.
    have hClosed : (row.status = .rejected ∧ (w.pinned.chain x.agreementId).IsEnded ∨
        (row.status = .canceledByIndexer ∨ row.status = .abandonedByIndexer) ∧
          ¬ (w.pinned.chain x.agreementId).IsEnded) →
        w.Recorded x.agreementId ∨ w.ClosedUnrecorded x.agreementId := by
      intro hMismatch
      cases hNone : row.acceptedAt with
      | some at' => exact .inl (hKept (by rw [hNone]; rfl))
      | none => exact .inr ⟨row, hListed, hNone, hMismatch⟩
    cases hA : a.status with
    | created => exact .inr (.inr (.inl (appliesAccept_of_time (.inl hA) hReached (.inr hAt))))
    | expired => exact .inr (.inr (.inl (appliesAccept_of_time (.inr hA) hReached (.inr hAt))))
    | acceptedOnChain => exact .inl (hDealt (hKept (hRecorded (hStatus.symm.trans hA))))
    | cancelling => exact .inl (hDealt (hCancelling hA hAt))
    | unresponsive =>
      exact .inl ⟨row', hRow', .inr (hGrows.status.unresponsive (hStatus.symm.trans hA))⟩
    | rejected =>
      cases hOver : x.state.isCanceled with
      | false => exact .inr (.inl (hCheckQueued (.inl hA) hOver))
      | true =>
        rcases hClosed (.inl ⟨hStatus.symm.trans hA, hShows.isEnded hOver hAt⟩) with hDone | hDone
        · exact .inl (hDealt hDone)
        · exact .inr (.inr (.inr hDone))
    | canceledByRequester =>
      cases hOver : x.state.isCanceled with
      | false => exact .inr (.inl (hCheckQueued (.inr hA) hOver))
      | true => exact .inl (hDealt (hEnded (by rw [hA]; rfl) hOver hAt))
    | canceledByIndexer | abandonedByIndexer =>
      cases hOver : x.state.isCanceled with
      | false =>
        have hEither : row.status = .canceledByIndexer ∨ row.status = .abandonedByIndexer := by
          rw [← hStatus, hA]
          simp
        rcases hClosed (.inr ⟨hEither, hShows.unended (hAccepted hOver)⟩) with hDone | hDone
        · exact .inl (hDealt hDone)
        · exact .inr (.inr (.inr hDone))
      | true => exact .inl (hDealt (hEnded (by rw [hA]; rfl) hOver hAt))
  · exact ((hw.pinned _).trans (hw.indexed _)).acceptedAt _ (hShows.time hAt)

end Dealt

/-- Every remembered change has its chain check queued. -/
def ChecksQueued (queued : List (IndexingAgreementId × Nat)) (w : World) : Prop :=
  ∀ change ∈ queued, w.CheckQueued change.1

theorem ChecksQueued.mono (h : ChecksQueued queued w) (hGrows : w.Grows w') :
    ChecksQueued queued w' :=
  fun change hMem => hGrows.checkQueued (h change hMem)

section Prepare

theorem closed_of_endedButAccepted (h : endedButAccepted x a = true) :
    a.status.closed = true ∧ x.state = .accepted := by
  simp only [endedButAccepted, Bool.and_eq_true, Bool.or_eq_true, decide_eq_true_eq,
    Bool.not_eq_true'] at h
  obtain ⟨⟨hStatus, hReached⟩, hOpen⟩ := h
  refine ⟨by rcases hStatus with hStatus | hStatus <;> rw [hStatus] <;> rfl, ?_⟩
  exact eq_accepted_of_reached hReached hOpen

theorem keeps_queueLiveCheck (hShows : Shows w x) (hRead : w.PageRead a) (hId : a.id = x.agreementId)
    (hEnded : endedButAccepted x a = true) (hQueued : ChecksQueued queued w) :
    Keeps config allow .chainListener (fun r w' => w.SamePage w' ∧
      ∀ queued', r = .ok queued' → ChecksQueued queued' w' ∧ w'.CheckQueued x.agreementId)
      (queueLiveCheck x queued) w := by
  obtain ⟨hClosed, hState⟩ := closed_of_endedButAccepted hEnded
  unfold queueLiveCheck
  dsimp only
  split
  · rename_i hMem
    refine listener_ret fun w1 _ hGrows hQuiet => ⟨hQuiet.samePage, ?_⟩
    intro queued' hEq
    cases hEq
    exact ⟨hQueued.mono hGrows, hQueued.mono hGrows _ hMem⟩
  · refine listener_call rfl fun w1 hInv1 hGrows1 hQuiet1 => ⟨?_, ?_⟩
    · obtain ⟨row, hRow, -, hPath⟩ := (hRead.knows.mono hGrows1).stored
      rw [hId] at hRow
      refine ⟨rfl, row, hRow, hPath.closed hClosed, ?_⟩
      exact (hShows.mono hGrows1 hQuiet1.pinned).carries hInv1 hState
    · intro c r w2 hExec _ hGrows2 hPage
      cases r with
      | error e => exact listener_ret fun w3 _ _ hQuiet => ⟨hPage.trans hQuiet.samePage, nofun⟩
      | ok _ =>
        have hJob := exec_push_ok hExec
        refine listener_ret fun w3 _ hGrows3 hQuiet => ⟨hPage.trans hQuiet.samePage, ?_⟩
        intro queued' hEq
        cases hEq
        refine ⟨fun change hMem => ?_, ⟨_, hGrows3.jobs _ hJob⟩⟩
        rcases List.mem_cons.mp hMem with rfl | hOld
        · exact ⟨_, hGrows3.jobs _ hJob⟩
        · exact (hQueued.mono ((hGrows1.trans hGrows2).trans hGrows3)) change hOld

theorem keeps_checkEndedButAccepted (hShows : Shows w x) (hRead : w.PageRead a)
    (hId : a.id = x.agreementId) (hQueued : ChecksQueued queued w) :
    Keeps config allow .chainListener (fun r w' => w.SamePage w' ∧
      ∀ queued', r = .ok queued' → ChecksQueued queued' w' ∧
        (endedButAccepted x a = true → w'.CheckQueued x.agreementId))
      (checkEndedButAccepted x a queued) w := by
  unfold checkEndedButAccepted
  split
  · rename_i hEnded
    refine (keeps_queueLiveCheck hShows hRead hId hEnded hQueued).mono fun r w1 _ h => ⟨h.1, ?_⟩
    exact fun queued' hEq => ⟨(h.2 queued' hEq).1, fun _ => (h.2 queued' hEq).2⟩
  · rename_i hOpen
    refine listener_ret fun w1 _ hGrows hQuiet => ⟨hQuiet.samePage, fun queued' hEq => ?_⟩
    cases hEq
    exact ⟨hQueued.mono hGrows, fun h => absurd h hOpen⟩

theorem keeps_recordAcceptOfCancelling (hShows : Shows w x) (hRead : w.PageRead a)
    (hId : a.id = x.agreementId) :
    Keeps config allow .chainListener (fun r w' => w.SamePage w' ∧
      (r = .ok () → a.status = .cancelling → x.acceptedAt ≠ 0 → w'.Recorded x.agreementId))
      (recordAcceptOfCancelling x a) w := by
  unfold recordAcceptOfCancelling
  split
  · rename_i hNothing
    simp only [Bool.or_eq_true, decide_eq_true_eq, Bool.not_eq_true'] at hNothing
    refine listener_ret fun w1 _ _ hQuiet => ⟨hQuiet.samePage, fun _ hStatus hAt => ?_⟩
    rcases hNothing with (hNe | hReached) | hZero
    · exact absurd hStatus hNe
    · rw [hShows.reached hAt] at hReached
      cases hReached
    · exact absurd hZero hAt
  · rename_i hRecord
    simp only [Bool.or_eq_true, decide_eq_true_eq, Bool.not_eq_true', not_or, not_not] at hRecord
    obtain ⟨⟨hStatus, -⟩, hAt⟩ := hRecord
    refine listener_call rfl fun w1 hInv1 hGrows1 hQuiet1 => ⟨?_, ?_⟩
    · intro row hRow
      obtain ⟨row', hRow', -, hPath⟩ := (hRead.knows.mono hGrows1).stored
      obtain rfl := Option.some.inj (hRow.symm.trans hRow')
      refine ⟨hPath.ending (by rw [hStatus]; rfl), ?_, .inl rfl⟩
      rw [hId]
      exact (hShows.mono hGrows1 hQuiet1.pinned).wasAccepted hInv1 hAt
    · intro c r w2 hExec _ _ hPage
      cases r with
      | error e => exact listener_ret fun w3 _ _ hQuiet => ⟨hPage.trans hQuiet.samePage, nofun⟩
      | ok _ =>
        obtain ⟨row, hRow, -, -⟩ := (hRead.knows.mono hGrows1).stored
        have hRow2 := exec_update_row hExec hRow rfl
        rw [hId] at hRow2
        refine listener_ret fun w3 _ hGrows3 hQuiet => ⟨hPage.trans hQuiet.samePage, fun _ _ _ => ?_⟩
        exact World.Recorded.mono ⟨_, hRow2, by simp⟩ hGrows3

theorem keeps_recordAcceptAndCancelFromChain (hShows : Shows w x) (hRead : w.PageRead a)
    (hId : a.id = x.agreementId) (hEnding : a.status.ending = true) :
    Keeps config allow .chainListener (fun r w' => w.SamePage w' ∧
      (r = .ok () → x.acceptedAt ≠ 0 → w'.Recorded x.agreementId))
      (recordAcceptAndCancelFromChain x a) w := by
  unfold recordAcceptAndCancelFromChain
  split
  · rename_i hZero
    exact listener_ret fun w1 _ _ hQuiet => ⟨hQuiet.samePage, fun _ hAt => absurd hZero hAt⟩
  · rename_i hAt
    refine listener_call rfl fun w1 hInv1 hGrows1 hQuiet1 => ⟨?_, ?_⟩
    · intro row hRow
      obtain ⟨row', hRow', -, hPath⟩ := (hRead.knows.mono hGrows1).stored
      obtain rfl := Option.some.inj (hRow.symm.trans hRow')
      refine ⟨hPath.ending hEnding, ?_, rfl⟩
      rw [hId]
      exact (hShows.mono hGrows1 hQuiet1.pinned).wasAccepted hInv1 hAt
    · intro c r w2 hExec _ _ hPage
      cases r with
      | error e => exact listener_ret fun w3 _ _ hQuiet => ⟨hPage.trans hQuiet.samePage, nofun⟩
      | ok _ =>
        obtain ⟨row, hRow, -, -⟩ := (hRead.knows.mono hGrows1).stored
        have hRow2 := exec_update_row hExec hRow rfl
        rw [hId] at hRow2
        refine listener_ret fun w3 _ hGrows3 hQuiet => ⟨hPage.trans hQuiet.samePage, fun _ _ => ?_⟩
        exact World.Recorded.mono ⟨_, hRow2, by simp⟩ hGrows3

theorem keeps_decideReconciliation (hShows : Shows w x) (hRead : w.PageRead a)
    (hId : a.id = x.agreementId) :
    Keeps config allow .chainListener (fun r w' => w.SamePage w' ∧ ∀ prepared, r = .ok prepared →
      (prepared = some ⟨reconciliationItem x a, a⟩ ∨
        prepared = none ∧ appliesAccept x a = false) ∧
      (a.status.isTerminalCancel = true → x.state.isCanceled = true → x.acceptedAt ≠ 0 →
        w'.Recorded x.agreementId))
      (decideReconciliation x a) w := by
  unfold decideReconciliation
  split
  · rename_i hActs
    refine listener_ret fun w1 _ _ hQuiet => ⟨hQuiet.samePage, fun prepared hEq => ?_⟩
    cases hEq
    refine ⟨.inl rfl, fun hTerminal => ?_⟩
    -- A row that has been ended is neither accepted nor cancelled.
    have hNot : appliesAccept x a = false := by
      cases hApplies : appliesAccept x a with
      | false => rfl
      | true =>
        have hFrom := status_of_appliesAccept hApplies
        revert hTerminal hFrom
        cases a.status <;> decide
    simp [hNot, cancelKind, hTerminal] at hActs
  · rename_i hIdle
    simp only [Bool.or_eq_true, not_or, Bool.not_eq_true] at hIdle
    split
    · rename_i hEnded
      rw [Bool.and_eq_true] at hEnded
      have hEnding : a.status.ending = true := by
        cases hStatus : a.status <;> rw [hStatus] at hEnded <;> first | rfl | cases hEnded.1
      refine keeps_bind (keeps_recordAcceptAndCancelFromChain hShows hRead hId hEnding)
        fun r w1 _ _ hRecord => ?_
      cases r with
      | error e =>
        exact listener_ret fun w2 _ _ hQuiet => ⟨hRecord.1.trans hQuiet.samePage,
          fun _ h => by cases h⟩
      | ok _ =>
        refine listener_ret fun w2 _ hGrows hQuiet => ⟨hRecord.1.trans hQuiet.samePage, ?_⟩
        intro prepared hEq
        cases hEq
        exact ⟨.inr ⟨rfl, hIdle.1⟩, fun _ _ hAt => (hRecord.2 rfl hAt).mono hGrows⟩
    · rename_i hOpen
      refine listener_ret fun w1 _ _ hQuiet => ⟨hQuiet.samePage, fun prepared hEq => ?_⟩
      cases hEq
      refine ⟨.inr ⟨rfl, hIdle.1⟩, fun hTerminal hCanceled => ?_⟩
      exact absurd (by rw [hTerminal, hCanceled]; rfl) hOpen

/-- What preparing a snapshot comes to: its item, or nothing left to do for it. -/
structure Prepared (agreement : Option IndexingAgreement) (x : AgreementStateSnapshot) (w : World)
    (r : Except Unit (Option PreparedReconciliation)) : Prop where
  item : ∀ prep, r = .ok (some prep) →
    agreement = some prep.agreement ∧ prep.item = reconciliationItem x prep.agreement
  dealt : ∀ a prepared, agreement = some a → r = .ok prepared →
    w.Dealt (∃ prep, prepared = some prep ∧ prep.item.applyAccept = true) x

theorem Prepared.failed {agreement : Option IndexingAgreement} :
    Prepared agreement x w (.error ()) :=
  ⟨fun _ h => (by cases h), fun _ _ _ h => (by cases h)⟩

theorem keeps_prepareReconciliation {agreement : Option IndexingAgreement} (hShows : Shows w x)
    (hAgreement : ∀ a, agreement = some a → a.id = x.agreementId ∧ w.PageRead a)
    (hQueued : ChecksQueued queued w) :
    Keeps config allow .chainListener
      (fun r w' => w.SamePage w' ∧ ChecksQueued r.2 w' ∧ Prepared agreement x w' r.1)
      (prepareReconciliation x agreement queued) w := by
  cases agreement with
  | none =>
    exact listener_ret fun w1 _ hGrows hQuiet => ⟨hQuiet.samePage, hQueued.mono hGrows,
      ⟨fun _ h => (by cases h), fun _ _ h => (by cases h)⟩⟩
  | some a =>
    obtain ⟨hId, hRead⟩ := hAgreement a rfl
    refine keeps_bind (keeps_checkEndedButAccepted hShows hRead hId hQueued)
      fun check w1 _ hGrows1 hCheck => ?_
    obtain ⟨hPage1, hQueued1⟩ := hCheck
    cases check with
    | error e =>
      exact listener_ret fun w2 _ hGrows2 hQuiet => ⟨hPage1.trans hQuiet.samePage,
        hQueued.mono (hGrows1.trans hGrows2), .failed⟩
    | ok queued1 =>
      obtain ⟨hQueued1, hChecked⟩ := hQueued1 queued1 rfl
      have hShows1 := hShows.mono hGrows1 hPage1.pinned
      have hRead1 := hRead.mono hGrows1 hPage1
      refine keeps_bind (keeps_recordAcceptOfCancelling hShows1 hRead1 hId)
        fun r w2 _ hGrows2 hRecord => ?_
      obtain ⟨hPage2, hRecorded⟩ := hRecord
      cases r with
      | error e =>
        exact listener_ret fun w3 _ hGrows3 hQuiet =>
          ⟨(hPage1.trans hPage2).trans hQuiet.samePage, hQueued1.mono (hGrows2.trans hGrows3), .failed⟩
      | ok _ =>
        have hShows2 := hShows1.mono hGrows2 hPage2.pinned
        have hRead2 := hRead1.mono hGrows2 hPage2
        refine keeps_bind (keeps_decideReconciliation hShows2 hRead2 hId)
          fun r w3 _ hGrows3 hDecided => ?_
        obtain ⟨hPage3, hDecided⟩ := hDecided
        refine listener_ret fun w4 hInv4 hGrows4 hQuiet4 => ?_
        have hPage34 := hPage3.trans hQuiet4.samePage
        have hGrows34 := hGrows3.trans hGrows4
        refine ⟨(hPage1.trans hPage2).trans hPage34, hQueued1.mono (hGrows2.trans hGrows34), ?_, ?_⟩
        · intro prep hEq
          rcases (hDecided _ hEq).1 with hPrep | ⟨hNone, -⟩
          · cases hPrep
            exact ⟨rfl, rfl⟩
          · cases hNone
        · intro a' prepared hA hEq
          cases hA
          obtain ⟨hPrep, hEnded⟩ := hDecided prepared hEq
          have hDealt := World.Dealt.of_decided hInv4 (hShows2.mono hGrows34 hPage34.pinned)
            (hRead2.mono hGrows34 hPage34) hId
            (fun h => (hGrows2.trans hGrows34).checkQueued (hChecked h))
            (fun hStatus hAt => (hRecorded rfl hStatus hAt).mono hGrows34)
            (fun hTerminal hCanceled hAt => (hEnded hTerminal hCanceled hAt).mono hGrows4)
          refine hDealt.mono (.refl w4) (.refl w4) fun hApplies => ?_
          rcases hPrep with rfl | ⟨-, hIdle⟩
          · exact ⟨_, rfl, hApplies⟩
          · rw [hApplies] at hIdle
            cases hIdle

end Prepare

end Dipper
