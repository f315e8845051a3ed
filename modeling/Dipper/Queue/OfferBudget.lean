import Dipper.Queue.Jobs

/-! The retries of a job that submits an offer.  An offer is worth submitting for as long as the
indexer can still accept it, so the job's retries are as many as have their waits fit in the
acceptance window.  They are counted for the shorter of the two waits a submission asks for. -/

namespace Dipper

namespace Pgmq

section Budget

def maxRetriesPerWindow : Nat := 64

/-- The loop of `retriesWithinWindow`, with `left` retries still to try. -/
def retriesFrom (window baseDelay : Nat) : (left retries : Nat) → (elapsed : Nat) → Nat
  | 0, retries, _ => retries
  | left + 1, retries, elapsed =>
    let next := Duration.saturatingAdd elapsed (calculateBackoffDelay baseDelay retries)
    if next > window then retries else retriesFrom window baseDelay left (retries + 1) next

def retriesWithinWindow (window baseDelay : Nat) : Nat :=
  retriesFrom window baseDelay maxRetriesPerWindow 0 0

def submitOfferRetryBase : Nat :=
  min SubmitOffer.droppedTxRetryBase SubmitOffer.transientRetryBase

def submitOfferMaxRetries (deadlineSeconds : Nat) : Nat :=
  retriesWithinWindow (Duration.fromSecs deadlineSeconds) submitOfferRetryBase

def submitOfferJob (deadlineSeconds : Nat) (agreement : IndexingAgreementId)
    (request : IndexingRequestId) (priority : JobPriority) : JobBuilder :=
  ({ desc := .submitOffer agreement request, priority := priority } : JobBuilder).maxRetries
    (submitOfferMaxRetries deadlineSeconds)

/-- The waits of the first `n` retries together, all of one base delay. -/
def backoffTotal (baseDelay : Nat) : Nat → Nat
  | 0 => 0
  | n + 1 => backoffTotal baseDelay n + calculateBackoffDelay baseDelay n

variable {window base base' : Nat}

theorem backoffTotal_mono {n m : Nat} (h : n ≤ m) : backoffTotal base n ≤ backoffTotal base m := by
  induction h with
  | refl => exact Nat.le_refl _
  | step _ ih => exact Nat.le_trans ih (Nat.le_add_right _ _)

/-- The loop stops before the first retry whose wait does not fit, or after the last one. -/
theorem retriesFrom_spec (window left retries : Nat)
    (hFits : backoffTotal base (retries + left) ≤ Duration.longest) :
    (∀ k, retries ≤ k → k ≤ retries + left → backoffTotal base retries ≤ window →
      (k ≤ retriesFrom window base left retries (backoffTotal base retries) ↔
        backoffTotal base k ≤ window)) ∧
    retriesFrom window base left retries (backoffTotal base retries) ≤ retries + left := by
  induction left generalizing retries with
  | zero =>
    refine ⟨fun k hFrom hTo hWindow => ?_, Nat.le_refl _⟩
    obtain rfl : k = retries := by omega
    exact ⟨fun _ => hWindow, fun _ => Nat.le_refl _⟩
  | succ left ih =>
    have hNext : Duration.saturatingAdd (backoffTotal base retries)
        (calculateBackoffDelay base retries) = backoffTotal base (retries + 1) := by
      have hMore : backoffTotal base (retries + 1) ≤ backoffTotal base (retries + (left + 1)) :=
        backoffTotal_mono (by omega)
      exact Nat.min_eq_left (Nat.le_trans hMore hFits)
    simp only [retriesFrom, hNext]
    split
    · rename_i hPast
      refine ⟨fun k hFrom hTo hWindow => ⟨fun hLe => ?_, fun hLe => ?_⟩, by omega⟩
      · obtain rfl : k = retries := by omega
        exact hWindow
      · by_contra hMore
        have hGrows : backoffTotal base (retries + 1) ≤ backoffTotal base k :=
          backoffTotal_mono (by omega)
        omega
    · rename_i hFit
      have hRest := ih (retries + 1)
        (Nat.le_trans (Nat.le_of_eq (by congr 1; omega)) hFits)
      refine ⟨fun k hFrom hTo hWindow => ?_, by omega⟩
      by_cases hEq : k = retries
      · have hReached := (hRest.1 (retries + 1) (by omega) (by omega) (by omega)).mpr (by omega)
        rw [hEq]
        exact ⟨fun _ => hWindow, fun _ => by omega⟩
      · exact hRest.1 k (by omega) (by omega) (by omega)

theorem le_retriesWithinWindow_iff
    (hFits : backoffTotal base maxRetriesPerWindow ≤ Duration.longest) {k : Nat} :
    k ≤ retriesWithinWindow window base ↔
      k ≤ maxRetriesPerWindow ∧ backoffTotal base k ≤ window := by
  have hSpec := retriesFrom_spec window maxRetriesPerWindow 0 (by rw [Nat.zero_add]; exact hFits)
  rw [Nat.zero_add] at hSpec
  constructor
  · intro hLe
    have hTried := Nat.le_trans hLe hSpec.2
    exact ⟨hTried, (hSpec.1 k (Nat.zero_le _) hTried (Nat.zero_le _)).mp hLe⟩
  · rintro ⟨hTried, hFit⟩
    exact (hSpec.1 k (Nat.zero_le _) hTried (Nat.zero_le _)).mpr hFit

theorem calculateBackoffDelay_mono (h : base ≤ base') (attempt : Nat) :
    calculateBackoffDelay base attempt ≤ calculateBackoffDelay base' attempt := by
  unfold calculateBackoffDelay
  split
  · have hTimes := Nat.mul_le_mul_right (2 ^ attempt) h
    simp only [Duration.saturatingMul]
    omega
  · exact Nat.le_refl _

/-- No wait of the shorter base is above the last one, 5 minutes. -/
theorem calculateBackoffDelay_submitOffer_le (attempt : Nat) :
    calculateBackoffDelay submitOfferRetryBase attempt ≤ Duration.fromSecs 300 := by
  by_cases hEarly : attempt < 5
  · have hAll : ∀ i < 5, calculateBackoffDelay submitOfferRetryBase i ≤ Duration.fromSecs 300 := by
      decide +kernel
    exact hAll attempt hEarly
  · unfold calculateBackoffDelay
    rw [if_neg hEarly]

theorem backoffTotal_submitOffer_fits :
    backoffTotal submitOfferRetryBase maxRetriesPerWindow ≤ Duration.longest := by
  have hAll : ∀ n, backoffTotal submitOfferRetryBase n ≤ n * Duration.fromSecs 300 := by
    intro n
    induction n with
    | zero => exact Nat.zero_le _
    | succ n ih =>
      have hLast := calculateBackoffDelay_submitOffer_le n
      rw [backoffTotal, Nat.succ_mul]
      omega
  exact Nat.le_trans (hAll _) (by decide)

/-- The waits after failures of these base delays, one after the other. -/
def backoffDelays (bases : List Nat) : List Nat :=
  bases.mapIdx fun attempt base => calculateBackoffDelay base attempt

theorem backoffDelays_concat (bases : List Nat) (base : Nat) :
    backoffDelays (bases ++ [base]) =
      backoffDelays bases ++ [calculateBackoffDelay base bases.length] := by
  unfold backoffDelays
  rw [List.mapIdx_concat]

theorem backoffTotal_le_sum {bases : List Nat} (h : ∀ b ∈ bases, base ≤ b) :
    backoffTotal base bases.length ≤ (backoffDelays bases).sum := by
  induction bases using List.reverseRecOn with
  | nil => exact Nat.le_refl _
  | append_singleton bases b ih =>
    have hRest := ih fun b' hMem => h b' (List.mem_append_left _ hMem)
    have hLast := calculateBackoffDelay_mono
      (h b (List.mem_append_right _ (List.mem_singleton_self _))) bases.length
    rw [backoffDelays_concat, List.sum_append, List.sum_singleton, List.length_append,
      List.length_singleton, backoffTotal]
    omega

theorem backoffTotal_eq_sum {bases : List Nat} (h : ∀ b ∈ bases, b = base) :
    (backoffDelays bases).sum = backoffTotal base bases.length := by
  induction bases using List.reverseRecOn with
  | nil => rfl
  | append_singleton bases b ih =>
    have hRest := ih fun b' hMem => h b' (List.mem_append_left _ hMem)
    have hLast := h b (List.mem_append_right _ (List.mem_singleton_self _))
    rw [backoffDelays_concat, List.sum_append, List.sum_singleton, List.length_append,
      List.length_singleton, backoffTotal, hRest, hLast]

end Budget

section Failures

variable {s s' : QueueState} {id : JobId} {e : QueueEvent} {now : Nat}
  {history : List (QueueState × QueueEvent)}

/-- The base delay a result asks for, if it counts as a failure. -/
def retryBase : Except JobError Unit → Option Nat
  | .error (.retryable baseDelay) => some baseDelay
  | _ => none

def QueueState.failureBase (s : QueueState) (id : JobId) : QueueEvent → Option Nat
  | .settle loop _ result true =>
    if s.held.lookup loop = some id then retryBase (runJobWithTimeout result) else none
  | _ => none

/-- The wait the loop computes for the event, if it counts against the job. -/
def QueueState.failureDelay (s : QueueState) (id : JobId) (e : QueueEvent) : Option Nat :=
  (s.failureBase id e).bind fun baseDelay =>
    (s.rows.lookup id).map fun row => calculateBackoffDelay baseDelay row.attemptCount

def failureBases (id : JobId) (history : List (QueueState × QueueEvent)) : List Nat :=
  history.filterMap fun past => past.1.failureBase id past.2

def failureDelays (id : JobId) (history : List (QueueState × QueueEvent)) : List Nat :=
  history.filterMap fun past => past.1.failureDelay id past.2

theorem isFailure_eq (result : Except JobError Unit) :
    isFailure result = (retryBase result).isSome := by
  match result with
  | .ok _ => rfl
  | .error (.retryable _) => rfl
  | .error (.deferred _) => rfl
  | .error .fatal => rfl

theorem countsAgainst_eq : s.countsAgainst id e = (s.failureBase id e).isSome := by
  cases e with
  | settle loop clock result lands =>
    cases lands with
    | false => rfl
    | true =>
      simp only [QueueState.countsAgainst, QueueState.failureBase, isFailure_eq]
      by_cases hHeld : s.held.lookup loop = some id
      · simp only [hHeld, decide_true, Bool.true_and, if_true]
      · simp only [hHeld, decide_false, Bool.false_and, if_false, Option.isSome_none]
  | push _ _ _ => rfl
  | pop _ => rfl
  | crash _ => rfl
  | clock _ => rfl

theorem length_failureBases (id : JobId) (history : List (QueueState × QueueEvent)) :
    (failureBases id history).length = failures id history := by
  unfold failureBases failures
  rw [List.length_filterMap_eq_countP]
  simp only [countsAgainst_eq]

theorem rows_of_countsAgainst (hStep : s.step e = some s') (h : s.countsAgainst id e = true) :
    (∃ row, s.rows.lookup id = some row) ∧ ∃ row, s'.rows.lookup id = some row := by
  cases e with
  | settle loop clock result lands =>
    cases lands with
    | false => cases h
    | true =>
      simp only [QueueState.countsAgainst, Bool.and_eq_true, decide_eq_true_eq] at h
      obtain ⟨hHeld, hFailure⟩ := h
      obtain ⟨id', hHeld', hStep⟩ := Option.bind_eq_some_iff.mp hStep
      obtain rfl : id' = id := Option.some.inj (hHeld'.symm.trans hHeld)
      obtain ⟨row, hRow, rfl⟩ := Option.map_eq_some_iff.mp hStep
      refine ⟨⟨row, hRow⟩, ?_⟩
      rw [if_pos rfl, lookup_commit]
      cases hLeft : row.settle clock (runJobWithTimeout result) with
      | some row' => exact ⟨row', rfl⟩
      | none =>
        have hAfter : row.toQueueRow.after (runJobWithTimeout result) = none := by
          rw [← settle_toQueueRow row clock, hLeft]
          rfl
        rw [after_none_iff] at hAfter
        rw [isFailure_eq] at hFailure
        cases hResult : runJobWithTimeout result with
        | ok _ =>
          rw [hResult] at hFailure
          cases hFailure
        | error failure =>
          rw [hResult] at hAfter hFailure
          cases failure with
          | retryable _ => cases hAfter
          | deferred _ => cases hFailure
          | fatal => cases hFailure
  | push _ _ _ => cases h
  | pop _ => cases h
  | crash _ => cases h
  | clock _ => cases h

theorem failureDelays_eq (id : JobId) (h : Ran now history s) :
    failureDelays id history = backoffDelays (failureBases id history) := by
  induction h with
  | start => rfl
  | @step history s s' e hRan hStep ih =>
    unfold failureDelays failureBases at ih ⊢
    rw [List.filterMap_append, List.filterMap_append, ih]
    cases hBase : s.failureBase id e with
    | none =>
      have hDelay : s.failureDelay id e = none := by
        unfold QueueState.failureDelay
        rw [hBase]
        rfl
      simp only [List.filterMap_cons, hBase, hDelay, List.filterMap_nil, List.append_nil]
    | some baseDelay =>
      have hCounts : s.countsAgainst id e = true := by
        rw [countsAgainst_eq, hBase]
        rfl
      obtain ⟨⟨row, hRow⟩, -⟩ := rows_of_countsAgainst hStep hCounts
      have hDelay : s.failureDelay id e =
          some (calculateBackoffDelay baseDelay (failureBases id history).length) := by
        unfold QueueState.failureDelay
        rw [hBase, Option.bind_some, hRow, Option.map_some,
          (kept_of_ran hRan).counted id row hRow, length_failureBases]
      simp only [List.filterMap_cons, hBase, hDelay, List.filterMap_nil]
      rw [backoffDelays_concat]
      rfl

theorem push_unique (h : Ran now history s) {s1 s2 : QueueState} {t1 t2 : Nat}
    {job1 job2 : JobBuilder}
    (h1 : (s1, .push id t1 job1) ∈ history) (h2 : (s2, .push id t2 job2) ∈ history) :
    t1 = t2 ∧ job1 = job2 := by
  induction h with
  | start => cases h1
  | @step history s s' e hRan hStep ih =>
    have hKept := kept_of_ran hRan
    -- A job that was pushed before is not pushed again.
    have hFresh : ∀ t job, e = .push id t job → ∀ s3 t3 job3,
        (s3, QueueEvent.push id t3 job3) ∉ history := by
      rintro t job rfl s3 t3 job3 hMem
      obtain ⟨⟨hNew, -⟩, -⟩ := Option.ite_none_right_eq_some.mp hStep
      exact hNew (hKept.noted s3 id t3 job3 hMem)
    rw [List.mem_append, List.mem_singleton, Prod.mk.injEq] at h1 h2
    rcases h1 with hOld1 | ⟨-, hNew1⟩
    · rcases h2 with hOld2 | ⟨-, hNew2⟩
      · exact ih hOld1 hOld2
      · exact absurd hOld1 (hFresh t2 job2 hNew2.symm _ _ _)
    · rcases h2 with hOld2 | ⟨-, hNew2⟩
      · exact absurd hOld2 (hFresh t1 job1 hNew1.symm _ _ _)
      · have hSame := QueueEvent.push.inj (hNew1.trans hNew2.symm)
        exact hSame.2

/-- Whenever a failure of an offer's job lands: the job is queued again if all its waits so far fit
in the acceptance window and they are no more than the most that are tried; and where all failures
were of the shorter base delay, it has failed for good exactly if the last wait does not fit, or is
one too many. -/
theorem offer_kept_while_retry_fits (hRan : Ran now history s) (hStep : s.step e = some s')
    {s1 : QueueState} {startedAt deadlineSeconds : Nat} {agreement : IndexingAgreementId}
    {request : IndexingRequestId} {priority : JobPriority}
    (hPushed : (s1, .push id startedAt
      (submitOfferJob deadlineSeconds agreement request priority)) ∈ history)
    (hFailed : s.countsAgainst id e = true) :
    ∃ row, s'.rows.lookup id = some row ∧
      ((∀ base ∈ failureBases id (history ++ [(s, e)]), submitOfferRetryBase ≤ base) →
        (failureBases id (history ++ [(s, e)])).length ≤ 64 →
        (failureDelays id (history ++ [(s, e)])).sum ≤ Duration.fromSecs deadlineSeconds →
        row.status = .queued) ∧
      ((∀ base ∈ failureBases id (history ++ [(s, e)]), base = submitOfferRetryBase) →
        (row.status = .failed ↔
          Duration.fromSecs deadlineSeconds < (failureDelays id (history ++ [(s, e)])).sum ∨
          64 < (failureBases id (history ++ [(s, e)])).length)) := by
  have hRan' := hRan.step hStep
  obtain ⟨-, row, hRow⟩ := rows_of_countsAgainst hStep hFailed
  have hKept := kept_of_ran hRan'
  -- The row's limit is that of the job as it was pushed.
  have hMax : row.maxAttempts = submitOfferMaxRetries deadlineSeconds + 1 := by
    obtain ⟨s2, startedAt', job, hMem, hMax⟩ := hKept.pushed id row hRow
    obtain ⟨-, rfl⟩ := push_unique hRan' hMem (List.mem_append_left _ hPushed)
    have hFew : submitOfferMaxRetries deadlineSeconds ≤ maxRetriesPerWindow :=
      ((le_retriesWithinWindow_iff backoffTotal_submitOffer_fits).mp (Nat.le_refl _)).1
    rw [hMax]
    change min (min (submitOfferMaxRetries deadlineSeconds + 1) maxU32) maxI32 = _
    unfold maxRetriesPerWindow at hFew
    unfold maxU32 maxI32
    omega
  -- So it has failed for good if the failures are more than the retries that fit.
  have hEnd : row.status = .failed ↔ ¬ (failureBases id (history ++ [(s, e)])).length ≤
      retriesWithinWindow (Duration.fromSecs deadlineSeconds) submitOfferRetryBase := by
    have hLimit := hKept.limits id row hRow
    have hCount := hKept.counted id row hRow
    rw [hLimit.2, hMax, hCount, length_failureBases]
    have hLe := hLimit.1
    rw [hMax, hCount] at hLe
    unfold submitOfferMaxRetries at hLe ⊢
    omega
  rw [le_retriesWithinWindow_iff backoffTotal_submitOffer_fits] at hEnd
  rw [failureDelays_eq id hRan']
  refine ⟨row, hRow, fun hBases hFew hSum => ?_, fun hBases => ?_⟩
  · have hTotal := Nat.le_trans (backoffTotal_le_sum hBases) hSum
    cases hStatus : row.status with
    | queued => rfl
    | failed => exact absurd ⟨hFew, hTotal⟩ (hEnd.mp hStatus)
  · rw [hEnd, backoffTotal_eq_sum hBases]
    unfold maxRetriesPerWindow
    omega

theorem mem_of_play {es : List QueueEvent} {run run' : List (QueueState × QueueEvent) × QueueState}
    (hPlay : play es run = some run') {past : QueueState × QueueEvent} (h : past ∈ run.1) :
    past ∈ run'.1 := by
  induction es generalizing run with
  | nil =>
    obtain rfl := Option.some.inj hPlay
    exact h
  | cons e es ih =>
    obtain ⟨s', -, hRest⟩ := Option.bind_eq_some_iff.mp hPlay
    exact ih hRest (List.mem_append_left _ h)

/-- The queue with one job, whose offer can be accepted for 16 seconds. -/
def offeredQueue : QueueState :=
  { QueueState.empty 0 with
    rows := AList.insert 1 ((submitOfferJob 16 1 1 .background).row 0) ∅
    issued := [1] }

theorem exists_failure_of_play (e : QueueEvent) (es : List QueueEvent) (bases : List Nat)
    (h : ((play es ([(.empty 0, .push 1 0 (submitOfferJob 16 1 1 .background))], offeredQueue)).any
      fun run => run.2.countsAgainst 1 e ∧ (run.2.step e).isSome ∧
        failureBases 1 (run.1 ++ [(run.2, e)]) = bases) = true) :
    ∃ history s s', Ran 0 history s ∧ s.step e = some s' ∧
      (QueueState.empty 0, .push 1 0 (submitOfferJob 16 1 1 .background)) ∈ history ∧
      s.countsAgainst 1 e = true ∧ failureBases 1 (history ++ [(s, e)]) = bases := by
  obtain ⟨⟨history, s⟩, hPlay, hLast⟩ := (Option.any_eq_true _ _).mp h
  obtain ⟨hCounts, hSome, hBases⟩ := of_decide_eq_true hLast
  obtain ⟨s', hStep⟩ := Option.isSome_iff_exists.mp hSome
  have hPush : Ran 0 [(.empty 0, .push 1 0 (submitOfferJob 16 1 1 .background))] offeredQueue :=
    Ran.step .start rfl
  exact ⟨history, s, s', ran_play hPush hPlay, hStep,
    mem_of_play hPlay (List.mem_singleton_self _), hCounts, hBases⟩

/-- Two dropped transactions, with a deferral between them, have waits of 5 and 10 seconds and leave
the job queued; a third one would have it wait another 20, and ends it. -/
theorem offer_given_up_past_window :
    (∃ s' row, s'.rows.lookup 1 = some row ∧ row.status = .queued ∧ ∃ history s, Ran 0 history s ∧
      s.step (.settle 0 0 (some (.error (.retryable (Duration.fromSecs 5)))) true) = some s' ∧
      failures 1 history = 1) ∧
    ∃ s' row, s'.rows.lookup 1 = some row ∧ row.status = .failed ∧ ∃ history s, Ran 0 history s ∧
      s.step (.settle 0 0 (some (.error (.retryable (Duration.fromSecs 5)))) true) = some s' ∧
      failures 1 history = 2 := by
  let dropped : QueueEvent := .settle 0 0 (some (.error (.retryable (Duration.fromSecs 5)))) true
  let events : List QueueEvent :=
    [.pop 0, dropped, .clock (Duration.fromSecs 5), .pop 0,
      .settle 0 0 (some (.error (.deferred 1))) true, .pop 0]
  let base := submitOfferRetryBase
  constructor
  · obtain ⟨history, s, s', hRan, hStep, hPushed, hFailed, hBases⟩ :=
      exists_failure_of_play dropped events [base, base] (by decide +kernel)
    obtain ⟨row, hRow, hQueued, -⟩ := offer_kept_while_retry_fits hRan hStep hPushed hFailed
    have hDelays := failureDelays_eq 1 (hRan.step hStep)
    rw [hBases] at hQueued hDelays
    have hCount := length_failureBases 1 (history ++ [(s, dropped)])
    rw [hBases, failures_append, hFailed] at hCount
    refine ⟨s', row, hRow, hQueued (by simp [base]) (by decide) ?_, history, s, hRan, hStep, ?_⟩
    · rw [hDelays]
      decide +kernel
    · exact (Nat.succ.inj hCount).symm
  · obtain ⟨history, s, s', hRan, hStep, hPushed, hFailed, hBases⟩ :=
      exists_failure_of_play dropped
        (events ++ [dropped, .clock (Duration.fromSecs 15), .pop 0]) [base, base, base]
        (by decide +kernel)
    obtain ⟨row, hRow, -, hEnds⟩ := offer_kept_while_retry_fits hRan hStep hPushed hFailed
    have hDelays := failureDelays_eq 1 (hRan.step hStep)
    rw [hBases] at hEnds hDelays
    have hCount := length_failureBases 1 (history ++ [(s, dropped)])
    rw [hBases, failures_append, hFailed] at hCount
    refine ⟨s', row, hRow, (hEnds (by simp [base])).mpr (.inl ?_), history, s, hRan, hStep, ?_⟩
    · rw [hDelays]
      decide +kernel
    · exact (Nat.succ.inj hCount).symm

end Failures

end Pgmq

end Dipper
