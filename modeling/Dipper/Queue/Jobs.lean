import Dipper.Queue.Store

/-! Jobs are neither lost nor held twice.  Along every run of the queue a job's row is locked by one
loop at most, a job leaves the table only by a loop that holds it, and its attempts are the results
that count as failures and landed. -/

namespace Dipper

namespace Pgmq

variable {s s' : QueueState} {id : JobId} {loop : LoopId} {row row' : StoredJob}

section Pop

theorem locked_iff : s.locked id = true ↔ ∃ loop, s.held.lookup loop = some id := by
  unfold QueueState.locked
  rw [List.any_eq_true]
  constructor
  · rintro ⟨⟨loop, id'⟩, hMem, hId⟩
    obtain rfl : id' = id := of_decide_eq_true hId
    exact ⟨loop, AList.mem_lookup_iff.mpr hMem⟩
  · rintro ⟨loop, hHeld⟩
    exact ⟨⟨loop, id⟩, AList.mem_lookup_iff.mp hHeld, decide_eq_true rfl⟩

/-- A job is due: queued for a time that has come, and locked by no loop. -/
def QueueState.IsDue (s : QueueState) (id : JobId) (row : StoredJob) : Prop :=
  row.status = .queued ∧ row.scheduledFor ≤ s.now ∧ ∀ loop, s.held.lookup loop ≠ some id

theorem due_iff : s.due id row = true ↔ s.IsDue id row := by
  unfold QueueState.due QueueState.IsDue
  rw [Bool.and_eq_true, Bool.and_eq_true, decide_eq_true_eq, decide_eq_true_eq, and_assoc,
    Bool.not_eq_true', Bool.eq_false_iff, Ne, locked_iff, not_exists]

/-- A job that comes before another in the order of the pops: of a higher priority, or of the same
one and inserted before it. -/
def Precedes (id : JobId) (row : StoredJob) (id' : JobId) (row' : StoredJob) : Prop :=
  row'.priority.toInt < row.priority.toInt ∨
  row.priority.toInt = row'.priority.toInt ∧
    (row.createdAt < row'.createdAt ∨ row.createdAt = row'.createdAt ∧ id ≤ id')

theorem precedes_of_popKey_le
    (h : QueueState.popKey ⟨id, row⟩ ≤ QueueState.popKey ⟨id', row'⟩) : Precedes id row id' row' := by
  unfold QueueState.popKey at h
  rw [Prod.Lex.toLex_le_toLex] at h
  dsimp only at h
  rcases h with hPriority | ⟨hSame, hTime⟩
  · exact .inl (by omega)
  · rw [Prod.Lex.toLex_le_toLex] at hTime
    exact .inr ⟨by omega, hTime⟩

theorem mem_due (hRow : s.rows.lookup id = some row) (hDue : s.IsDue id row) :
    ⟨id, row⟩ ∈ s.rows.entries.filter fun entry => s.due entry.1 entry.2 :=
  List.mem_filter.mpr ⟨AList.mem_lookup_iff.mp hRow, due_iff.mpr hDue⟩

theorem nextJob_some (h : s.nextJob = some id) : ∃ row, s.rows.lookup id = some row ∧
    s.IsDue id row ∧ ∀ id' row', s.rows.lookup id' = some row' → s.IsDue id' row' →
      Precedes id row id' row' := by
  obtain ⟨⟨id, row⟩, hMin, rfl⟩ := Option.map_eq_some_iff.mp h
  obtain ⟨hMem, hDue⟩ := List.mem_filter.mp (List.argmin_mem hMin)
  refine ⟨row, AList.mem_lookup_iff.mpr hMem, due_iff.mp hDue, fun id' row' hRow' hDue' => ?_⟩
  exact precedes_of_popKey_le (List.le_of_mem_argmin (mem_due hRow' hDue') hMin)

theorem nextJob_none (h : s.nextJob = none) (hRow : s.rows.lookup id = some row) :
    ¬ s.IsDue id row := by
  intro hDue
  have hNone := List.argmin_eq_none.mp (Option.map_eq_none_iff.mp h)
  have hMem := mem_due hRow hDue
  rw [hNone] at hMem
  cases hMem

end Pop

section Settlement

def isFailure : Except JobError Unit → Bool
  | .error (.retryable _) => true
  | _ => false

/-- The results after which a job is done with. -/
def isDone : Except JobError Unit → Bool
  | .ok _ | .error .fatal => true
  | _ => false

theorem settle_toQueueRow (row : StoredJob) (clock : Nat) (result : Except JobError Unit) :
    (row.settle clock result).map (·.toQueueRow) = row.toQueueRow.after result := by
  match result with
  | .ok _ => rfl
  | .error (.retryable _) => rfl
  | .error (.deferred _) => rfl
  | .error .fatal => rfl

/-- A row's attempts are within its limit, and one that has failed is at it. -/
def WithinLimit (row : QueueRow) : Prop :=
  row.attemptCount ≤ row.maxAttempts ∧ (row.status = .failed ↔ row.attemptCount = row.maxAttempts)

theorem after_none_iff {row : QueueRow} {result : Except JobError Unit} :
    row.after result = none ↔ isDone result = true := by
  match result with
  | .ok _ => exact ⟨fun _ => rfl, fun _ => rfl⟩
  | .error (.retryable _) => exact ⟨nofun, nofun⟩
  | .error (.deferred _) => exact ⟨nofun, nofun⟩
  | .error .fatal => exact ⟨fun _ => rfl, fun _ => rfl⟩

theorem after_some {row row' : QueueRow} {result : Except JobError Unit}
    (hQueued : row.status = .queued) (hLimit : WithinLimit row)
    (h : row.after result = some row') : row'.maxAttempts = row.maxAttempts ∧
      row'.attemptCount = row.attemptCount + (if isFailure result then 1 else 0) ∧
      WithinLimit row' := by
  have hBelow : row.attemptCount < row.maxAttempts := by
    refine Nat.lt_of_le_of_ne hLimit.1 fun hEq => ?_
    have hFailed := hLimit.2.mpr hEq
    rw [hQueued] at hFailed
    cases hFailed
  match result with
  | .ok _ => cases h
  | .error .fatal => cases h
  | .error (.retryable _) =>
    obtain rfl := Option.some.inj h
    refine ⟨rfl, rfl, hBelow, ?_⟩
    simp only [QueueRow.requeue, if_true]
    constructor
    · intro hFailed
      split at hFailed
      · omega
      · cases hFailed
    · intro hEq
      rw [if_pos (Nat.le_of_eq hEq.symm)]
  | .error (.deferred _) =>
    obtain rfl := Option.some.inj h
    refine ⟨rfl, rfl, hLimit.1, ?_⟩
    simp only [QueueRow.requeue, Bool.false_eq_true, if_false]
    exact ⟨nofun, fun hEq => absurd hEq (Nat.ne_of_lt hBelow)⟩

end Settlement

section History

/-- The event settles the loop's job with a result that counts as a failure. -/
def QueueState.countsAgainst (s : QueueState) (id : JobId) : QueueEvent → Bool
  | .settle loop _ result true =>
    s.held.lookup loop = some id && isFailure (runJobWithTimeout result)
  | _ => false

/-- The event is a loop's that holds the job and is done with it. -/
def QueueState.removes (s : QueueState) (id : JobId) : QueueEvent → Bool
  | .settle loop _ result true =>
    s.held.lookup loop = some id && isDone (runJobWithTimeout result)
  | _ => false

def failures (id : JobId) (history : List (QueueState × QueueEvent)) : Nat :=
  history.countP fun past => past.1.countsAgainst id past.2

theorem failures_append (history : List (QueueState × QueueEvent)) (s : QueueState)
    (e : QueueEvent) : failures id (history ++ [(s, e)]) =
      failures id history + (if s.countsAgainst id e then 1 else 0) := by
  unfold failures
  rw [List.countP_append, List.countP_singleton]

/-- What holds of the queue along its runs. -/
structure Kept (history : List (QueueState × QueueEvent)) (s : QueueState) : Prop where
  single : ∀ loop loop' id, s.held.lookup loop = some id → s.held.lookup loop' = some id →
    loop = loop'
  stored : ∀ loop id, s.held.lookup loop = some id →
    ∃ row, s.rows.lookup id = some row ∧ row.status = .queued
  issued : ∀ id row, s.rows.lookup id = some row → id ∈ s.issued
  limits : ∀ id row, s.rows.lookup id = some row → WithinLimit row.toQueueRow
  counted : ∀ id row, s.rows.lookup id = some row → row.attemptCount = failures id history
  pushed : ∀ id row, s.rows.lookup id = some row → ∃ s1 startedAt job,
    (s1, .push id startedAt job) ∈ history ∧ row.maxAttempts = (job.row startedAt).maxAttempts
  fresh : ∀ id, id ∉ s.issued → failures id history = 0
  left : ∀ id ∈ s.issued, (s.rows.lookup id).isSome ∨
    ∃ past ∈ history, past.1.removes id past.2 = true
  noted : ∀ s1 id startedAt job, (s1, .push id startedAt job) ∈ history → id ∈ s.issued

variable {history : List (QueueState × QueueEvent)} {e : QueueEvent}

theorem kept_empty (now : Nat) : Kept [] (.empty now) where
  single _ _ _ h := by cases h
  stored _ _ h := by cases h
  issued _ _ h := by cases h
  limits _ _ h := by cases h
  counted _ _ h := by cases h
  pushed _ _ h := by cases h
  fresh _ _ := rfl
  left _ h := by cases h
  noted _ _ _ _ h := by cases h

theorem Kept.of_rows (h : Kept history s) (hRows : s'.rows = s.rows) (hIssued : s'.issued = s.issued)
    (hCounts : ∀ id, s.countsAgainst id e = false) (hPush : ∀ id startedAt job,
      e ≠ .push id startedAt job)
    (hSingle : ∀ loop loop' id, s'.held.lookup loop = some id → s'.held.lookup loop' = some id →
      loop = loop')
    (hStored : ∀ loop id, s'.held.lookup loop = some id →
      ∃ row, s.rows.lookup id = some row ∧ row.status = .queued) :
    Kept (history ++ [(s, e)]) s' := by
  have hSame : ∀ id, failures id (history ++ [(s, e)]) = failures id history := by
    intro id
    rw [failures_append, hCounts id]
    rfl
  constructor
  · exact hSingle
  · rw [hRows]
    exact hStored
  · rw [hRows, hIssued]
    exact h.issued
  · rw [hRows]
    exact h.limits
  · intro id row hRow
    rw [hRows] at hRow
    rw [hSame]
    exact h.counted id row hRow
  · intro id row hRow
    rw [hRows] at hRow
    obtain ⟨s1, startedAt, job, hMem, hMax⟩ := h.pushed id row hRow
    exact ⟨s1, startedAt, job, List.mem_append_left _ hMem, hMax⟩
  · intro id hFresh
    rw [hIssued] at hFresh
    rw [hSame]
    exact h.fresh id hFresh
  · intro id hIssued'
    rw [hIssued] at hIssued'
    rw [hRows]
    rcases h.left id hIssued' with hHere | ⟨past, hMem, hRemoved⟩
    · exact .inl hHere
    · exact .inr ⟨past, List.mem_append_left _ hMem, hRemoved⟩
  · intro s1 id startedAt job hMem
    rw [hIssued]
    rcases List.mem_append.mp hMem with hOld | hNew
    · exact h.noted s1 id startedAt job hOld
    · exact absurd (Prod.mk.inj (List.mem_singleton.mp hNew)).2.symm (hPush id startedAt job)

theorem lookup_of_rollback {loops : List LoopId} {held : AList fun _ : LoopId => JobId}
    (h : (loops.foldl (fun held loop => held.erase loop) held).lookup loop = some id) :
    held.lookup loop = some id := by
  induction loops generalizing held with
  | nil => exact h
  | cons other rest ih =>
    have hErased : (held.erase other).lookup loop = some id := ih h
    by_cases hEq : loop = other
    · rw [hEq, AList.lookup_erase] at hErased
      cases hErased
    · rwa [AList.lookup_erase_ne hEq] at hErased

theorem Kept.rollback (h : Kept history s) (loops : List LoopId)
    (hCounts : ∀ id, s.countsAgainst id e = false)
    (hPush : ∀ id startedAt job, e ≠ .push id startedAt job) :
    Kept (history ++ [(s, e)]) (s.rollback loops) := by
  refine h.of_rows rfl rfl hCounts hPush ?_ ?_
  · intro loop loop' id hHeld hHeld'
    exact h.single loop loop' id (lookup_of_rollback hHeld) (lookup_of_rollback hHeld')
  · intro loop id hHeld
    exact h.stored loop id (lookup_of_rollback hHeld)

theorem Kept.pop (h : Kept history s) (loop : LoopId) :
    Kept (history ++ [(s, .pop loop)]) (s.pop loop) := by
  unfold QueueState.pop
  split
  · rename_i id hNext
    obtain ⟨row, hRow, ⟨hQueued, -, hFree⟩, -⟩ := nextJob_some hNext
    -- The loops that held jobs before hold others than the one that is popped.
    have hHolds : ∀ other id', (s.held.insert loop id).lookup other = some id' →
        other = loop ∧ id' = id ∨ other ≠ loop ∧ id' ≠ id ∧ s.held.lookup other = some id' := by
      intro other id' hHeld
      by_cases hEq : other = loop
      · rw [hEq, AList.lookup_insert] at hHeld
        exact .inl ⟨hEq, (Option.some.inj hHeld).symm⟩
      · rw [AList.lookup_insert_ne hEq] at hHeld
        refine .inr ⟨hEq, ?_, hHeld⟩
        rintro rfl
        exact hFree other hHeld
    refine h.of_rows rfl rfl (fun _ => rfl) nofun ?_ ?_
    · intro loop1 loop2 id' h1 h2
      rcases hHolds loop1 id' h1 with ⟨rfl, rfl⟩ | ⟨-, hNe, hHeld1⟩
      · rcases hHolds loop2 _ h2 with ⟨rfl, -⟩ | ⟨-, hNe, -⟩
        · rfl
        · exact absurd rfl hNe
      · rcases hHolds loop2 id' h2 with ⟨-, hEq⟩ | ⟨-, -, hHeld2⟩
        · exact absurd hEq hNe
        · exact h.single loop1 loop2 id' hHeld1 hHeld2
    · intro other id' hHeld
      rcases hHolds other id' hHeld with ⟨-, rfl⟩ | ⟨-, -, hHeld'⟩
      · exact ⟨row, hRow, hQueued⟩
      · exact h.stored other id' hHeld'
  · exact h.of_rows rfl rfl (fun _ => rfl) nofun h.single h.stored

theorem Kept.push (h : Kept history s) {startedAt : Nat} {job : JobBuilder} (hNew : id ∉ s.issued) :
    Kept (history ++ [(s, .push id startedAt job)])
      { s with rows := s.rows.insert id (job.row startedAt), issued := id :: s.issued } := by
  have hSame : ∀ id', failures id' (history ++ [(s, .push id startedAt job)]) =
      failures id' history := fun id' => failures_append history s _
  -- A row of the table is the new one, or one of another job.
  have hRows : ∀ id' row, (s.rows.insert id (job.row startedAt)).lookup id' = some row →
      id' = id ∧ row = job.row startedAt ∨ id' ≠ id ∧ s.rows.lookup id' = some row := by
    intro id' row hRow
    by_cases hEq : id' = id
    · rw [hEq, AList.lookup_insert] at hRow
      exact .inl ⟨hEq, (Option.some.inj hRow).symm⟩
    · rw [AList.lookup_insert_ne hEq] at hRow
      exact .inr ⟨hEq, hRow⟩
  constructor
  · exact h.single
  · intro loop id' hHeld
    obtain ⟨row, hRow, hQueued⟩ := h.stored loop id' hHeld
    have hNe : id' ≠ id := by
      rintro rfl
      exact hNew (h.issued id' row hRow)
    exact ⟨row, (AList.lookup_insert_ne hNe).trans hRow, hQueued⟩
  · intro id' row hRow
    rcases hRows id' row hRow with ⟨rfl, -⟩ | ⟨-, hOld⟩
    · exact List.mem_cons_self
    · exact List.mem_cons_of_mem _ (h.issued id' row hOld)
  · intro id' row hRow
    rcases hRows id' row hRow with ⟨-, rfl⟩ | ⟨-, hOld⟩
    · refine ⟨Nat.zero_le _, nofun, fun hEq => ?_⟩
      exact absurd hEq (Nat.ne_of_lt (job.maxAttempts.getD queueMaxAttempts).2)
    · exact h.limits id' row hOld
  · intro id' row hRow
    rw [hSame]
    rcases hRows id' row hRow with ⟨rfl, rfl⟩ | ⟨-, hOld⟩
    · exact (h.fresh id' hNew).symm
    · exact h.counted id' row hOld
  · intro id' row hRow
    rcases hRows id' row hRow with ⟨rfl, rfl⟩ | ⟨-, hOld⟩
    · exact ⟨s, startedAt, job, List.mem_append_right _ (List.mem_singleton_self _), rfl⟩
    · obtain ⟨s1, startedAt', job', hMem, hMax⟩ := h.pushed id' row hOld
      exact ⟨s1, startedAt', job', List.mem_append_left _ hMem, hMax⟩
  · intro id' hFresh
    rw [hSame]
    exact h.fresh id' fun hOld => hFresh (List.mem_cons_of_mem _ hOld)
  · intro id' hIssued
    by_cases hEq : id' = id
    · rw [hEq]
      exact .inl (by rw [AList.lookup_insert]; rfl)
    · rcases h.left id' ((List.mem_cons.mp hIssued).resolve_left hEq) with hHere | ⟨past, hMem, hPast⟩
      · exact .inl (by rw [AList.lookup_insert_ne hEq]; exact hHere)
      · exact .inr ⟨past, List.mem_append_left _ hMem, hPast⟩
  · intro s1 id' startedAt' job' hMem
    rcases List.mem_append.mp hMem with hOld | hLast
    · exact List.mem_cons_of_mem _ (h.noted s1 id' startedAt' job' hOld)
    · obtain ⟨-, hEvent⟩ := Prod.mk.inj (List.mem_singleton.mp hLast)
      obtain ⟨rfl, -, -⟩ := QueueEvent.push.inj hEvent
      exact List.mem_cons_self

theorem lookup_commit {left : Option StoredJob} :
    (s.commit loop id left).rows.lookup id = left := by
  unfold QueueState.commit
  cases left with
  | some row => exact AList.lookup_insert _
  | none => exact AList.lookup_erase _ _

theorem lookup_commit_ne {left : Option StoredJob} {id' : JobId} (h : id' ≠ id) :
    (s.commit loop id left).rows.lookup id' = s.rows.lookup id' := by
  unfold QueueState.commit
  cases left with
  | some row => exact AList.lookup_insert_ne h
  | none => exact AList.lookup_erase_ne h

theorem settle_some {clock : Nat} {result : Except JobError Unit} (hQueued : row.status = .queued)
    (hLimit : WithinLimit row.toQueueRow) (h : row.settle clock result = some row') :
    row'.maxAttempts = row.maxAttempts ∧
      row'.attemptCount = row.attemptCount + (if isFailure result then 1 else 0) ∧
      WithinLimit row'.toQueueRow := by
  have hAfter : row.toQueueRow.after result = some row'.toQueueRow := by
    rw [← settle_toQueueRow row clock, h]
    rfl
  exact after_some hQueued hLimit hAfter

theorem Kept.commit (h : Kept history s) (hHeld : s.held.lookup loop = some id)
    (hRow : s.rows.lookup id = some row) (clock : Nat) (result : Option (Except JobError Unit)) :
    Kept (history ++ [(s, .settle loop clock result true)])
      (s.commit loop id (row.settle clock (runJobWithTimeout result))) := by
  have hQueued : row.status = .queued := by
    obtain ⟨row', hRow', hQueued⟩ := h.stored loop id hHeld
    rwa [Option.some.inj (hRow.symm.trans hRow')]
  have hSettled : ∀ row', row.settle clock (runJobWithTimeout result) = some row' →
      row'.maxAttempts = row.maxAttempts ∧ row'.attemptCount =
        row.attemptCount + (if isFailure (runJobWithTimeout result) then 1 else 0) ∧
      WithinLimit row'.toQueueRow := fun row' hLeft =>
    settle_some hQueued (h.limits id row hRow) hLeft
  have hOwn : failures id (history ++ [(s, .settle loop clock result true)]) =
      failures id history + (if isFailure (runJobWithTimeout result) then 1 else 0) := by
    rw [failures_append]
    simp only [QueueState.countsAgainst, hHeld, decide_true, Bool.true_and]
  have hOthers : ∀ id' ≠ id, failures id' (history ++ [(s, .settle loop clock result true)]) =
      failures id' history := by
    intro id' hNe
    have hNot : s.countsAgainst id' (.settle loop clock result true) = false := by
      simp only [QueueState.countsAgainst, hHeld, Option.some.injEq, Bool.and_eq_false_imp,
        decide_eq_true_eq]
      exact fun hEq => absurd hEq.symm hNe
    rw [failures_append, hNot]
    rfl
  have hHolds : ∀ other id', (s.held.erase loop).lookup other = some id' →
      id' ≠ id ∧ s.held.lookup other = some id' := by
    intro other id' hOther
    by_cases hEq : other = loop
    · rw [hEq, AList.lookup_erase] at hOther
      cases hOther
    · rw [AList.lookup_erase_ne hEq] at hOther
      refine ⟨?_, hOther⟩
      rintro rfl
      exact hEq (h.single other loop id' hOther hHeld)
  constructor
  · intro loop1 loop2 id' h1 h2
    exact h.single loop1 loop2 id' (hHolds loop1 id' h1).2 (hHolds loop2 id' h2).2
  · intro other id' hOther
    obtain ⟨hNe, hStill⟩ := hHolds other id' hOther
    rw [lookup_commit_ne hNe]
    exact h.stored other id' hStill
  · intro id' row' hRow'
    by_cases hEq : id' = id
    · rw [hEq]
      exact h.issued id row hRow
    · rw [lookup_commit_ne hEq] at hRow'
      exact h.issued id' row' hRow'
  · intro id' row' hRow'
    by_cases hEq : id' = id
    · rw [hEq, lookup_commit] at hRow'
      exact (hSettled row' hRow').2.2
    · rw [lookup_commit_ne hEq] at hRow'
      exact h.limits id' row' hRow'
  · intro id' row' hRow'
    by_cases hEq : id' = id
    · rw [hEq, lookup_commit] at hRow'
      rw [hEq, hOwn, ← h.counted id row hRow]
      exact (hSettled row' hRow').2.1
    · rw [lookup_commit_ne hEq] at hRow'
      rw [hOthers id' hEq]
      exact h.counted id' row' hRow'
  · intro id' row' hRow'
    have hBefore : ∃ row1, s.rows.lookup id' = some row1 ∧ row'.maxAttempts = row1.maxAttempts := by
      by_cases hEq : id' = id
      · rw [hEq, lookup_commit] at hRow'
        rw [hEq]
        exact ⟨row, hRow, (hSettled row' hRow').1⟩
      · rw [lookup_commit_ne hEq] at hRow'
        exact ⟨row', hRow', rfl⟩
    obtain ⟨row1, hRow1, hMax⟩ := hBefore
    obtain ⟨s1, startedAt, job, hMem, hMax1⟩ := h.pushed id' row1 hRow1
    exact ⟨s1, startedAt, job, List.mem_append_left _ hMem, hMax.trans hMax1⟩
  · intro id' hFresh
    have hNe : id' ≠ id := by
      rintro rfl
      exact hFresh (h.issued id' row hRow)
    rw [hOthers id' hNe]
    exact h.fresh id' hFresh
  · intro id' hIssued
    by_cases hEq : id' = id
    · rw [hEq, lookup_commit]
      -- A job that is not left was removed just now, by the loop that held it.
      cases hLeft : row.settle clock (runJobWithTimeout result) with
      | some row' => exact .inl rfl
      | none =>
        refine .inr ⟨_, List.mem_append_right _ (List.mem_singleton_self _), ?_⟩
        have hAfter : row.toQueueRow.after (runJobWithTimeout result) = none := by
          rw [← settle_toQueueRow row clock, hLeft]
          rfl
        simp only [QueueState.removes, hHeld, after_none_iff.mp hAfter, decide_true, Bool.and_self]
    · rw [lookup_commit_ne hEq]
      rcases h.left id' hIssued with hHere | ⟨past, hMem, hPast⟩
      · exact .inl hHere
      · exact .inr ⟨past, List.mem_append_left _ hMem, hPast⟩
  · intro s1 id' startedAt job hMem
    rcases List.mem_append.mp hMem with hOld | hLast
    · exact h.noted s1 id' startedAt job hOld
    · cases (Prod.mk.inj (List.mem_singleton.mp hLast)).2

theorem Kept.step (h : Kept history s) (hStep : s.step e = some s') :
    Kept (history ++ [(s, e)]) s' := by
  cases e with
  | push id startedAt job =>
    obtain ⟨⟨hNew, -⟩, hStep⟩ := Option.ite_none_right_eq_some.mp hStep
    obtain rfl := Option.some.inj hStep
    exact h.push hNew
  | pop loop =>
    obtain ⟨-, hStep⟩ := Option.ite_none_right_eq_some.mp hStep
    obtain rfl := Option.some.inj hStep
    exact h.pop loop
  | settle loop clock result lands =>
    obtain ⟨id, hHeld, hStep⟩ := Option.bind_eq_some_iff.mp hStep
    obtain ⟨row, hRow, rfl⟩ := Option.map_eq_some_iff.mp hStep
    cases lands with
    | true => exact h.commit hHeld hRow clock result
    | false => exact h.rollback [loop] (fun _ => rfl) nofun
  | crash loops =>
    obtain rfl := Option.some.inj hStep
    exact h.rollback loops (fun _ => rfl) nofun
  | clock now =>
    obtain ⟨-, hStep⟩ := Option.ite_none_right_eq_some.mp hStep
    obtain rfl := Option.some.inj hStep
    exact h.of_rows rfl rfl (fun _ => rfl) nofun h.single h.stored

theorem kept_of_ran {now : Nat} (h : Ran now history s) : Kept history s := by
  induction h with
  | start => exact kept_empty now
  | step _ hStep ih => exact ih.step hStep

end History

section Runs

variable {history : List (QueueState × QueueEvent)} {now : Nat}

/-- Along every run: a job is held by one loop at most; a job that was pushed is stored, or was
removed by a loop that held it; it has failed exactly when the failures that landed are as many as
its attempts; and a pop takes, of the jobs that are due, one that no other precedes. -/
theorem jobs_kept (h : Ran now history s) :
    (∀ loop loop' id, s.held.lookup loop = some id → s.held.lookup loop' = some id → loop = loop') ∧
    (∀ s1 id startedAt job, (s1, .push id startedAt job) ∈ history →
      (s.rows.lookup id).isSome ∨ ∃ past ∈ history, past.1.removes id past.2 = true) ∧
    (∀ id row, s.rows.lookup id = some row → row.attemptCount = failures id history ∧
      (row.status = .failed ↔ failures id history = row.maxAttempts) ∧
      ∃ s1 startedAt job, (s1, .push id startedAt job) ∈ history ∧
        row.maxAttempts = (job.row startedAt).maxAttempts) ∧
    ∀ loop s', s.step (.pop loop) = some s' →
      (∀ id, s'.held.lookup loop = some id → ∃ row, s.rows.lookup id = some row ∧ s.IsDue id row ∧
        ∀ id' row', s.rows.lookup id' = some row' → s.IsDue id' row' → Precedes id row id' row') ∧
      (s'.held.lookup loop = none → ∀ id row, s.rows.lookup id = some row → ¬ s.IsDue id row) := by
  have hKept := kept_of_ran h
  refine ⟨hKept.single, ?_, ?_, ?_⟩
  · intro s1 id startedAt job hPush
    exact hKept.left id (hKept.noted s1 id startedAt job hPush)
  · intro id row hRow
    have hCount := hKept.counted id row hRow
    refine ⟨hCount, ?_, hKept.pushed id row hRow⟩
    rw [← hCount]
    exact (hKept.limits id row hRow).2
  · intro loop s' hPop
    obtain ⟨hFree, hPop⟩ := Option.ite_none_right_eq_some.mp hPop
    obtain rfl := Option.some.inj hPop
    unfold QueueState.pop
    split
    · rename_i id hNext
      constructor
      · intro id' hHeld
        rw [AList.lookup_insert] at hHeld
        obtain rfl := Option.some.inj hHeld
        exact nextJob_some hNext
      · intro hNone
        rw [AList.lookup_insert] at hNone
        cases hNone
    · rename_i hNext
      constructor
      · intro id hHeld
        rw [hFree] at hHeld
        cases hHeld
      · intro _ id row hRow
        exact nextJob_none hNext hRow

/-- The events that can all happen one after another, from a run. -/
def play : List QueueEvent → List (QueueState × QueueEvent) × QueueState →
    Option (List (QueueState × QueueEvent) × QueueState)
  | [], run => some run
  | e :: es, (history, s) => (s.step e).bind fun s' => play es (history ++ [(s, e)], s')

theorem ran_play {es : List QueueEvent} {run run' : List (QueueState × QueueEvent) × QueueState}
    (h : Ran now run.1 run.2) (hPlay : play es run = some run') : Ran now run'.1 run'.2 := by
  induction es generalizing run with
  | nil =>
    obtain rfl := Option.some.inj hPlay
    exact h
  | cons e es ih =>
    obtain ⟨s', hStep, hRest⟩ := Option.bind_eq_some_iff.mp hPlay
    exact ih (h.step hStep) hRest

/-- A sweep's job and an interactive one that is pushed after it.  The interactive one is popped
first and is done; the other one is deferred, dropped in a crash and then timed out, and has one of
its attempts behind it. -/
theorem two_jobs_kept : ∃ (history : List (QueueState × QueueEvent)) (s : QueueState) (row : StoredJob),
    Ran 5 history s ∧ s.rows.lookup 2 = none ∧ s.rows.lookup 1 = some row ∧
      row.attemptCount = 1 ∧ failures 1 history = 1 := by
  let events : List QueueEvent :=
    [.push 1 5 { desc := .reassessIndexingRequest 1, priority := .sweep },
      .push 2 5 { desc := .reassessIndexingRequest 2, priority := .interactive }, .pop 0, .pop 1,
      .settle 0 6 (some (.ok ())) true, .settle 1 6 (some (.error (.deferred 3))) true, .clock 9,
      .pop 0, .crash [0], .pop 1, .settle 1 9 none true]
  have hEnd : ((play events ([], .empty 5)).any fun run =>
      run.2.rows.lookup 2 = none ∧ (run.2.rows.lookup 1).any (·.attemptCount = 1)) = true := by
    decide +kernel
  obtain ⟨⟨history, s⟩, hPlay, hRows⟩ := (Option.any_eq_true _ _).mp hEnd
  obtain ⟨hRemoved, hAny⟩ := of_decide_eq_true hRows
  obtain ⟨row, hRow, hCount⟩ := (Option.any_eq_true _ _).mp hAny
  have hRan : Ran 5 history s := ran_play .start hPlay
  have hAttempts := ((jobs_kept hRan).2.2.1 1 row hRow).1
  exact ⟨history, s, row, hRan, hRemoved, hRow, of_decide_eq_true hCount,
    hAttempts.symm.trans (of_decide_eq_true hCount)⟩

end Runs

end Pgmq

end Dipper
