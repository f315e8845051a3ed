import Dipper.Consistency.Runs
import Dipper.Selection
import Mathlib.Data.List.Dedup

/-! How long a declined agreement counts against its indexer.  The cases of the query split the
declined rows between them, and a row's time of update is when it entered its status, so it counts
for the window of its case from then on. -/

namespace Dipper

section Cases

variable {row : AgreementRow}

/-- The case a row belongs to: by its reason, or whether it was an expiry without an offer. -/
def AgreementRow.window (row : AgreementRow) : DeclinedWindow :=
  match row.rejectionReason with
  | none => if row.status = .expired ∧ row.offerTxHash = none then .unoffered else .standard
  | some reason =>
    if reason = priceTooLow then .price
    else if reason ∈ transientReasons then .transient
    else if reason ∈ uncertainReasons then .uncertain
    else .standard

theorem expiredUnoffered_eq (row : AgreementRow) : row.expiredUnoffered =
    some (decide (row.status = .expired) && row.offerTxHash.isNone &&
      row.rejectionReason.isNone) := by
  simp only [AgreementRow.expiredUnoffered, Sql.isNull, Sql.equals_some, Sql.conj_some]

/-- Without a reason the comparisons with reasons are unknown, and the others split the rows. -/
theorem inWindow_of_no_reason (h : row.rejectionReason = none) (window : DeclinedWindow) :
    row.inWindow window = some true ↔ window = row.window := by
  have hPrice : row.inWindow .price = none := by rw [AgreementRow.inWindow, h, Sql.equals_null]
  have hTransient : row.inWindow .transient = none := by
    rw [AgreementRow.inWindow, h]
    exact Sql.isIn_null (List.cons_ne_nil _ _)
  have hUncertain : row.inWindow .uncertain = none := by
    rw [AgreementRow.inWindow, h]
    exact Sql.isIn_null (List.cons_ne_nil _ _)
  have hUnoffered : row.expiredUnoffered =
      some (decide (row.status = .expired ∧ row.offerTxHash = none)) := by
    rw [expiredUnoffered_eq, h, Option.isNone_none, Bool.and_true, Bool.decide_and]
    cases row.offerTxHash <;> simp
  have hStandard : row.inWindow .standard =
      some (!decide (row.status = .expired ∧ row.offerTxHash = none)) := by
    have hOther : Sql.isIn (Sql.coalesce row.rejectionReason "")
        (priceTooLow :: transientReasons ++ uncertainReasons) = some false := by
      rw [h]
      decide +kernel
    rw [AgreementRow.inWindow, hOther, hUnoffered, Sql.neg_some, Sql.neg_some, Sql.conj_some,
      Bool.not_false, Bool.true_and]
  have hUnoffered' : row.inWindow .unoffered =
      some (decide (row.status = .expired ∧ row.offerTxHash = none)) := hUnoffered
  rw [AgreementRow.window, h]
  dsimp only
  by_cases hExpired : row.status = .expired ∧ row.offerTxHash = none
  · rw [if_pos hExpired]
    cases window <;> simp [hPrice, hTransient, hUncertain, hUnoffered', hStandard, hExpired]
  · rw [if_neg hExpired]
    cases window <;> simp [hPrice, hTransient, hUncertain, hUnoffered', hStandard, hExpired]

theorem inWindow_of_reason {reason : String} (h : row.rejectionReason = some reason)
    (window : DeclinedWindow) : row.inWindow window = some true ↔ window = row.window := by
  have hPrice : row.inWindow .price = some (decide (reason = priceTooLow)) := by
    rw [AgreementRow.inWindow, h, Sql.equals_some]
  have hTransient : row.inWindow .transient = some (decide (reason ∈ transientReasons)) := by
    rw [AgreementRow.inWindow, h, Sql.isIn_some]
  have hUncertain : row.inWindow .uncertain = some (decide (reason ∈ uncertainReasons)) := by
    rw [AgreementRow.inWindow, h, Sql.isIn_some]
  have hUnoffered : row.inWindow .unoffered = some false := by
    rw [AgreementRow.inWindow, expiredUnoffered_eq, h, Option.isNone_some, Bool.and_false]
  have hStandard : row.inWindow .standard = some (!decide (reason = priceTooLow ∨
      reason ∈ transientReasons ∨ reason ∈ uncertainReasons)) := by
    have hIn : Sql.isIn (Sql.coalesce row.rejectionReason "")
        (priceTooLow :: transientReasons ++ uncertainReasons) =
          some (decide (reason = priceTooLow ∨ reason ∈ transientReasons ∨
            reason ∈ uncertainReasons)) := by
      rw [h, Sql.coalesce, Option.getD_some, Sql.isIn_some]
      simp only [List.cons_append, List.mem_append, List.mem_cons]
    have hUnoffered' : row.expiredUnoffered = some false := hUnoffered
    rw [AgreementRow.inWindow, hIn, hUnoffered', Sql.neg_some, Sql.neg_some, Sql.conj_some,
      Bool.not_false, Bool.and_true]
  -- No reason is in two of the cases.
  have hApart : priceTooLow ∉ transientReasons ∧ priceTooLow ∉ uncertainReasons ∧
      ∀ reason ∈ transientReasons, reason ≠ priceTooLow ∧ reason ∉ uncertainReasons := by
    decide +kernel
  rw [AgreementRow.window, h]
  dsimp only
  by_cases hP : reason = priceTooLow
  · subst hP
    rw [if_pos rfl]
    cases window <;>
      simp [hPrice, hTransient, hUncertain, hUnoffered, hStandard, hApart.1, hApart.2.1]
  rw [if_neg hP]
  by_cases hT : reason ∈ transientReasons
  · rw [if_pos hT]
    cases window <;>
      simp [hPrice, hTransient, hUncertain, hUnoffered, hStandard, hP, hT, (hApart.2.2 _ hT).2]
  rw [if_neg hT]
  by_cases hU : reason ∈ uncertainReasons
  · rw [if_pos hU]
    cases window <;> simp [hPrice, hTransient, hUncertain, hUnoffered, hStandard, hP, hT, hU]
  · rw [if_neg hU]
    cases window <;> simp [hPrice, hTransient, hUncertain, hUnoffered, hStandard, hP, hT, hU]

theorem inWindow_iff (row : AgreementRow) (window : DeclinedWindow) :
    row.inWindow window = some true ↔ window = row.window := by
  cases h : row.rejectionReason with
  | none => exact inWindow_of_no_reason h window
  | some reason => exact inWindow_of_reason h window

theorem declined_iff {lookbacks : Lookbacks} {now : Nat}
    (hStatus : row.status ∈ AgreementRow.declinedStatuses) :
    row.declined lookbacks now = some true ↔
      (now : Int) - row.window.lookback lookbacks ≤ row.updatedAt := by
  have hIn : Sql.isIn (some row.status) AgreementRow.declinedStatuses = some true := by
    rw [Sql.isIn_some, decide_eq_true hStatus]
  simp only [AgreementRow.declined, hIn, Sql.conj_eq_true, Sql.disj_eq_true, inWindow_iff,
    Option.some.injEq, decide_eq_true_eq, true_and]
  cases row.window <;> simp

end Cases

section Histories

variable {now : Nat} {row row' : AgreementRow}

/-- A row the registry's statements make, with the time it entered its status. -/
inductive RowHistory : AgreementRow → Nat → Prop
  | inserted (params : NewAgreementParams) (now : Nat) : RowHistory (params.row now) now
  | written {row row' : AgreementRow} {entered now : Nat} : RowHistory row entered →
      RegistryWrite now row row' →
      RowHistory row' (if row'.status = row.status then entered else now)

theorem updatedAt_writeEnd (replace : Bool) (canceledAt : Int) (canceledBy : String)
    (canceledTx : Option String) :
    (row.writeEnd replace canceledAt canceledBy canceledTx).updatedAt = row.updatedAt := by
  unfold AgreementRow.writeEnd
  split <;> rfl

/-- A statement that touches the time of update changes the status with it, or the row is active;
the others leave both. -/
theorem RowUpdate.updatedAt {u : RowUpdate} (h : u.run now row = some row') :
    row'.updatedAt = now ∧ (row'.status ≠ row.status ∨ row.status.active = true) ∨
      row'.updatedAt = row.updatedAt ∧ row'.status = row.status := by
  have hMove : ∀ {s allowedFrom} {r : AgreementRow}, setStatusFrom now s allowedFrom row = some r →
      s ∉ allowedFrom → r.updatedAt = now ∧ r.status ≠ row.status := by
    intro s allowedFrom r hSet hNot
    obtain ⟨hFrom, rfl⟩ := setStatusFrom_eq_some.mp hSet
    refine ⟨rfl, fun hSame => hNot ?_⟩
    rwa [← hSame] at hFrom
  cases u with
  | markAsUnresponsive | markAsCanceledByRequester | markAsAbandonedByIndexer | markAsCancelling
  | markAsExpired =>
    obtain ⟨hTime, hNe⟩ := hMove h (by decide)
    exact .inl ⟨hTime, .inl hNe⟩
  | markAsAbandoning | reopenCancel seenLive | markAsRejected reason =>
    obtain ⟨r, hSet, rfl⟩ := Option.map_eq_some_iff.mp h
    obtain ⟨hTime, hNe⟩ := hMove hSet (by decide)
    exact .inl ⟨hTime, .inl hNe⟩
  | updateOfferTxHash txHash =>
    simp only [RowUpdate.run, Option.ite_none_right_eq_some, Option.some.injEq] at h
    obtain ⟨hFrom, rfl⟩ := h
    by_cases hCancelling : row.status = .cancelling
    · exact .inr ⟨if_pos hCancelling, rfl⟩
    · refine .inl ⟨if_neg hCancelling, .inr ?_⟩
      revert hFrom hCancelling
      cases row.status <;> decide
  | recordCancelCheck failedAttempts ended =>
    simp only [RowUpdate.run, Option.ite_none_right_eq_some, Option.some.injEq] at h
    obtain ⟨-, rfl⟩ := h
    exact .inr ⟨rfl, rfl⟩
  | markTerminatedEventEmitted | markAcceptedEventEmitted | markExpiredEventEmitted
  | recordAcceptedAudit acceptedAt acceptedTx | markReplacementQueued =>
    obtain rfl := Option.some.inj h
    exact .inr ⟨rfl, rfl⟩
  | recordCancelAudit canceledAt canceledBy canceledTx =>
    obtain rfl := Option.some.inj h
    exact .inr ⟨updatedAt_writeEnd _ _ _ _, AgreementRow.writeEnd_status _ _ _ _⟩
  | recordAcceptAndCancelAudit acceptedAt acceptedTx canceledAt canceledBy canceledTx =>
    obtain rfl := Option.some.inj h
    exact .inr ⟨updatedAt_writeEnd _ _ _ _, AgreementRow.writeEnd_status _ _ _ _⟩

theorem RegistryWrite.updatedAt (h : RegistryWrite now row row') :
    row'.updatedAt = now ∧ (row'.status ≠ row.status ∨ row.status.active = true) ∨
      row'.updatedAt = row.updatedAt ∧ row'.status = row.status := by
  cases h with
  | update hRun => exact RowUpdate.updatedAt hRun
  | accept hRow =>
    obtain ⟨hFrom, rfl⟩ := Agreements.acceptRow_eq_some.mp hRow
    refine .inl ⟨rfl, .inl ?_⟩
    change IndexingAgreementStatus.acceptedOnChain ≠ row.status
    revert hFrom
    cases row.status <;> decide
  | @cancel kind _ _ hRow =>
    obtain ⟨hFrom, rfl⟩ := Agreements.cancelRow_eq_some.mp hRow
    refine .inl ⟨rfl, .inl ?_⟩
    change Agreements.cancelStatus kind row ≠ row.status
    revert hFrom
    cases kind <;> cases hMark : row.abandoned <;>
      simp only [Agreements.cancelStatus, hMark] <;> cases row.status <;> decide
  | audit =>
    rw [Agreements.persistAudit_eq]
    exact .inr ⟨rfl, rfl⟩

/-- The time of update of a row that is not active is when it entered its status. -/
theorem RowHistory.updatedAt {entered : Nat} (h : RowHistory row entered)
    (hInactive : row.status.active = false) : row.updatedAt = entered := by
  induction h with
  | inserted params now => rfl
  | @written row row' entered now _ hWrite ih =>
    rcases hWrite.updatedAt with ⟨hTime, hNe | hActive⟩ | ⟨hTime, hSame⟩
    · rw [if_neg hNe, hTime]
    · by_cases hSame : row'.status = row.status
      · rw [hSame, hActive] at hInactive
        cases hInactive
      · rw [if_neg hSame, hTime]
    · rw [if_pos hSame, hTime]
      rw [hSame] at hInactive
      exact ih hInactive

theorem RowHistory.writes {entered : Nat} (h : RowHistory row entered)
    (hWrites : RegistryWrites now row row') : ∃ entered', RowHistory row' entered' := by
  induction hWrites with
  | refl => exact ⟨entered, h⟩
  | tail _ hWrite ih =>
    obtain ⟨entered', hHistory⟩ := ih
    exact ⟨_, .written hHistory hWrite⟩

/-- Every row was made by the registry's statements. -/
def World.RowsWritten (w : World) : Prop :=
  ∀ id row, w.row id = some row → ∃ entered, RowHistory row entered

theorem rowsWritten_of_run {config : Config} {allow : World → Tag → Op → Choice → Prop}
    {start chainTime : Nat} {requests : Requests} {c : (services config allow).Config}
    (hRun : (services config allow).Run (fresh start chainTime requests) c) : c.1.RowsWritten := by
  refine invariant_of_run (fun id row hRow => (by cases hRow)) ?_ ?_ hRun
  · intro w t o choice r w' _ hWritten _ _ hPerformed id row' hRow'
    rcases hPerformed.effect.source hRow' with ⟨row, hRow, hWrites⟩ | ⟨-, params, _, -, -, rfl⟩
    · obtain ⟨entered, hHistory⟩ := hWritten id row hRow
      exact hHistory.writes hWrites
    · exact ⟨w.now, .inserted params w.now⟩
  · intro w w' e _ hWritten hMove id row hRow
    rw [(World.untouched_of_outside hMove).sameRow] at hRow
    exact hWritten id row hRow

end Histories

theorem mem_getDeclinedIndexers {w : World} {lookbacks : Lookbacks} {deployment : DeploymentId}
    {indexer : IndexerId} : indexer ∈ w.getDeclinedIndexers lookbacks deployment ↔
      ∃ id row, w.row id = some row ∧ row.deploymentId = deployment ∧ row.indexerId = indexer ∧
        row.declined lookbacks w.now = some true := by
  simp only [World.getDeclinedIndexers, List.mem_dedup, List.mem_map, List.mem_filter,
    Bool.and_eq_true, decide_eq_true_eq]
  constructor
  · rintro ⟨⟨id, row⟩, ⟨hMem, hDeployment, hDeclined⟩, rfl⟩
    exact ⟨id, row, AList.mem_lookup_iff.mpr hMem, hDeployment, rfl, hDeclined⟩
  · rintro ⟨id, row, hRow, hDeployment, rfl, hDeclined⟩
    exact ⟨⟨id, row⟩, ⟨AList.mem_lookup_iff.mp hRow, hDeployment, hDeclined⟩, rfl⟩

/-- A declined row that the registry's statements made is in exactly one case of the query, its time
of update is when it entered its status, and it is selected, and so its indexer listed, exactly
while that is within the window of the case. -/
theorem declined_counts_for_its_window (lookbacks : Lookbacks) (w : World) :
    (∀ deployment indexer, indexer ∈ w.getDeclinedIndexers lookbacks deployment ↔
      ∃ id row, w.row id = some row ∧ row.deploymentId = deployment ∧ row.indexerId = indexer ∧
        row.declined lookbacks w.now = some true) ∧
    (∀ row : AgreementRow, row.declined lookbacks w.now = some true →
      row.status ∈ AgreementRow.declinedStatuses) ∧
    ∀ row entered, RowHistory row entered → row.status ∈ AgreementRow.declinedStatuses →
      ∃ window : DeclinedWindow,
        (∀ other, row.inWindow other = some true ↔ other = window) ∧
        row.updatedAt = entered ∧
        (row.declined lookbacks w.now = some true ↔
          (w.now : Int) - window.lookback lookbacks ≤ entered) := by
  refine ⟨fun _ _ => mem_getDeclinedIndexers, fun row hDeclined => ?_,
    fun row entered hHistory hStatus => ?_⟩
  · have hIn := (Sql.conj_eq_true.mp hDeclined).1
    rw [Sql.isIn_some] at hIn
    exact of_decide_eq_true (Option.some.inj hIn)
  · have hInactive : row.status.active = false := by
      revert hStatus
      cases row.status <;> decide
    have hEntered := hHistory.updatedAt hInactive
    refine ⟨row.window, inWindow_iff row, hEntered, ?_⟩
    rw [declined_iff hStatus, hEntered]

/-- An agreement that a proposal job marks as rejected for its price counts for the day of that
reason. -/
theorem price_rejection_counts_a_day : ∃ c : (allServices sampleConfig).Config,
    (allServices sampleConfig).Run (fresh 5 5 sampleRequests) c ∧
    ∃ row entered, c.1.row 10 = some row ∧ RowHistory row entered ∧ row.updatedAt = entered ∧
      (row.declined {} c.1.now = some true ↔ (c.1.now : Int) - 86400 ≤ entered) := by
  obtain ⟨c, hRun, hEnd⟩ := exists_run sampleConfig (fresh 5 5 sampleRequests)
    (offerMoves 10 1 ++ [.start (.job (.sendIndexingAgreementProposal 10 1)),
      .op 0 (.rows [10]), .op 0 (.reply (.rejected "PRICE_TOO_LOW")), .op 0 .ok])
    (fun c => (c.1.row 10).any fun row =>
      row.status = .rejected && row.inWindow .price = some true)
    (by decide +kernel)
  simp only [Option.any_eq_true, Bool.and_eq_true, decide_eq_true_eq] at hEnd
  obtain ⟨row, hRow, hStatus, hPrice⟩ := hEnd
  obtain ⟨entered, hHistory⟩ := rowsWritten_of_run hRun 10 row hRow
  obtain ⟨window, hOnly, hEntered, hDeclined⟩ :=
    (declined_counts_for_its_window {} c.1).2.2 row entered hHistory (by rw [hStatus]; decide)
  obtain rfl := (hOnly .price).mp hPrice
  exact ⟨c, hRun, row, entered, hRow, hHistory, hEntered, hDeclined⟩

end Dipper
