import Dipper.Registry.StateMachine

/-! The transaction for a page of reconciliations refines the transaction for one.  The page
reorders its items into groups and runs one statement for each group, but each row goes through its
own item only, so the items can as well be applied one after another in any order. -/

namespace Dipper

namespace Agreements

def applyEach (t : Agreements) (outcomes : Outcomes) :
    List (Nat × ReconciliationItem) → Except RegistryError (Agreements × Outcomes)
  | [] => .ok (t, outcomes)
  | (now, item) :: rest => do
    let (t, outcome) ← t.applyReconciliation now item.agreementId item.applyAccept item.cancel
    applyEach t (outcomes.insert item.agreementId outcome) rest

variable {now now' : Nat} {t t' : Agreements} {items : List ReconciliationItem}
  {outcomes outcomes' : Outcomes} {item : ReconciliationItem} {row : AgreementRow}

theorem transition_at (now now' : Nat) (applyAccept : Bool) (cancel : Option CancelKind)
    (row : AgreementRow) :
    (transition now applyAccept cancel row).1.status =
        (transition now' applyAccept cancel row).1.status ∧
      (transition now applyAccept cancel row).2 = (transition now' applyAccept cancel row).2 := by
  rcases transition_uniform applyAccept cancel row with h | ⟨-, -, -, h⟩ | ⟨kind, -, -, -, h⟩ |
    ⟨kind, -, -, -, h⟩ <;> rw [h now, h now'] <;> exact ⟨rfl, rfl⟩

/-- An accept that lands is followed by a cancel that lands. -/
theorem didCancel_of_didAccept (now : Nat) (applyAccept : Bool) (kind : CancelKind)
    (row : AgreementRow)
    (h : (transition now applyAccept (some kind) row).2.didAccept = true) :
    (transition now applyAccept (some kind) row).2.didCancel = true := by
  rcases transition_cases now applyAccept (some kind) row with hSame | ⟨-, hNone, -⟩ |
    ⟨_, -, -, hEnd⟩ | ⟨_, -, -, -, hBoth⟩
  · rw [hSame] at h
    cases h
  · cases hNone
  · rw [hEnd] at h
    cases h
  · rw [hBoth]

/-- So the check for a paired accept whose cancel matched nothing never fails. -/
theorem outcomeOf_paired (now : Nat) (applyAccept : Bool) (kind : CancelKind)
    (row : Option AgreementRow) :
    ((outcomeOf now applyAccept (some kind) row).didAccept &&
      !(outcomeOf now applyAccept (some kind) row).didCancel) = false := by
  cases row with
  | none => rfl
  | some row =>
    have hBoth := didCancel_of_didAccept now applyAccept kind row
    simp only [outcomeOf, Option.map_some, Option.getD_some]
    cases hAccept : (transition now applyAccept (some kind) row).2.didAccept with
    | false => rfl
    | true => simp [hBoth hAccept]

theorem applyReconciliation_ok (now : Nat) (t : Agreements) (id : IndexingAgreementId)
    (applyAccept : Bool) (cancel : Option CancelKind) :
    ∃ t', t.applyReconciliation now id applyAccept cancel =
      .ok (t', outcomeOf now applyAccept cancel (t.lookup id)) := by
  cases cancel with
  | none =>
    refine ⟨(t.acceptIf now applyAccept id).1, ?_⟩
    have hSnd : (t.acceptIf now applyAccept id).2 = _ := acceptIf_snd applyAccept
    simp only [applyReconciliation, hSnd]
    cases t.lookup id with
    | none => rfl
    | some row => simp [outcomeOf, transition]
  | some kind =>
    have hOutcome : _ = outcomeOf now applyAccept (some kind) (t.lookup id) :=
      outcomeOf_cancel applyAccept kind
    have hPaired := outcomeOf_paired now applyAccept kind (t.lookup id)
    rw [← hOutcome] at hPaired
    refine ⟨((t.acceptIf now applyAccept id).1.applyCancel now id kind).1, ?_⟩
    rw [← hOutcome]
    simp only [applyReconciliation]
    rw [if_neg (Bool.eq_false_iff.mp hPaired)]

theorem applyPaired_ok (now : Nat) (t : Agreements) (outcomes : Outcomes)
    (items : List ReconciliationItem) :
    ∃ t' outcomes', t.applyPaired now outcomes items = .ok (t', outcomes') := by
  induction items generalizing t outcomes with
  | nil => exact ⟨t, outcomes, rfl⟩
  | cons item items ih =>
    cases hKind : item.cancel with
    | none =>
      simp only [applyPaired, hKind]
      exact ih t outcomes
    | some kind =>
      have hOutcome : _ = outcomeOf now true (some kind) (t.lookup item.agreementId) :=
        outcomeOf_cancel true kind
      have hPaired := outcomeOf_paired now true kind (t.lookup item.agreementId)
      rw [← hOutcome] at hPaired
      simp only [applyPaired, hKind]
      change ∃ t' outcomes', (if ((t.acceptIf now true item.agreementId).2 &&
        !((t.acceptIf now true item.agreementId).1.applyCancel now item.agreementId kind).2) = true
        then _ else _) = _
      rw [if_neg (Bool.eq_false_iff.mp hPaired)]
      exact ih _ _

theorem applyReconciliationBatch_ok (now : Nat) (t : Agreements)
    (items : List ReconciliationItem) :
    ∃ t' outcomes, t.applyReconciliationBatch now items = .ok (t', outcomes) := by
  obtain ⟨t1, outcomes1, hPaired⟩ := applyPaired_ok now t
    (items.foldl (fun out item => out.insert item.agreementId {}) ∅)
    (items.filter fun item => item.applyAccept && item.cancel.isSome)
  unfold applyReconciliationBatch
  dsimp only
  rw [hPaired]
  exact ⟨_, _, rfl⟩

theorem lookup_applyEach (timed : List (Nat × ReconciliationItem)) (t : Agreements)
    (outcomes : Outcomes) (hNodup : (timed.map (·.2.agreementId)).Nodup) :
    ∃ t' outcomes', t.applyEach outcomes timed = .ok (t', outcomes') ∧
      (∀ p ∈ timed, t'.lookup p.2.agreementId = (t.lookup p.2.agreementId).map (fun row =>
          (transition p.1 p.2.applyAccept p.2.cancel row).1) ∧
        outcomes'.lookup p.2.agreementId =
          some (outcomeOf p.1 p.2.applyAccept p.2.cancel (t.lookup p.2.agreementId))) ∧
      ∀ id ∉ timed.map (·.2.agreementId),
        t'.lookup id = t.lookup id ∧ outcomes'.lookup id = outcomes.lookup id := by
  induction timed generalizing t outcomes with
  | nil => exact ⟨t, outcomes, rfl, nofun, fun _ _ => ⟨rfl, rfl⟩⟩
  | cons first rest ih =>
    obtain ⟨now, item⟩ := first
    obtain ⟨hNot, hRest⟩ := List.nodup_cons.mp hNodup
    obtain ⟨t1, hFirst⟩ := applyReconciliation_ok now t item.agreementId
      item.applyAccept item.cancel
    have hRow := fun id => (lookup_applyReconciliation hFirst : t1.lookup id = _)
    obtain ⟨t', outcomes', hApplied, hEach, hOther⟩ := ih t1
      (outcomes.insert item.agreementId (outcomeOf now item.applyAccept item.cancel
        (t.lookup item.agreementId))) hRest
    refine ⟨t', outcomes', ?_, ?_, ?_⟩
    · unfold applyEach
      rw [hFirst]
      exact hApplied
    · intro p hp
      rcases List.mem_cons.mp hp with rfl | hp
      · obtain ⟨hSame, hOut⟩ := hOther item.agreementId hNot
        rw [hSame, hOut, hRow, if_pos rfl, AList.lookup_insert]
        exact ⟨rfl, rfl⟩
      · have hNe : p.2.agreementId ≠ item.agreementId := fun hEq =>
          hNot (List.mem_map.mpr ⟨p, hp, hEq⟩)
        obtain ⟨hMoved, hOut⟩ := hEach p hp
        rw [hMoved, hOut, hRow, if_neg hNe]
        exact ⟨rfl, rfl⟩
    · intro id hId
      simp only [List.map_cons, List.mem_cons, not_or] at hId
      obtain ⟨hSame, hOut⟩ := hOther id hId.2
      rw [hSame, hOut, hRow, if_neg hId.1, AList.lookup_insert_ne hId.1]
      exact ⟨rfl, rfl⟩

theorem reconcileRow_unflagged (now : Nat) (item : ReconciliationItem) (row : AgreementRow) :
    ((transition now item.applyAccept item.cancel row).2.didAccept = false →
      (reconcileRow now item row).acceptedAt = row.acceptedAt ∧
      (reconcileRow now item row).acceptedTx = row.acceptedTx) ∧
    ((transition now item.applyAccept item.cancel row).2.didCancel = false →
      (reconcileRow now item row).canceledAt = row.canceledAt ∧
      (reconcileRow now item row).canceledBy = row.canceledBy ∧
      (reconcileRow now item row).canceledTx = row.canceledTx) := by
  have hColumns : ∀ row', (transition now item.applyAccept item.cancel row).1 = row' →
      row'.acceptedAt = row.acceptedAt ∧ row'.acceptedTx = row.acceptedTx ∧
      row'.canceledAt = row.canceledAt ∧ row'.canceledBy = row.canceledBy ∧
      row'.canceledTx = row.canceledTx := by
    rintro row' rfl
    rcases transition_cases now item.applyAccept item.cancel row with h | ⟨-, -, -, h⟩ |
      ⟨kind, -, -, h⟩ | ⟨kind, -, -, -, h⟩ <;> rw [h] <;> exact ⟨rfl, rfl, rfl, rfl, rfl⟩
  obtain ⟨hAt, hTx, hCanceledAt, hCanceledBy, hCanceledTx⟩ := hColumns _ rfl
  unfold reconcileRow
  rw [persistAudit_eq]
  constructor
  · intro hNot
    simp [hNot, hAt, hTx]
  · intro hNot
    simp [hNot, hCanceledAt, hCanceledBy, hCanceledTx]

/-- The transaction for a page of items of distinct agreements commits, with the statuses and the
flags that its items leave one after another, in any order and at any times, and stores an accept
or an end only where the flag says that one happened. -/
theorem batch_refines_single (now : Nat) (t : Agreements) (items : List ReconciliationItem)
    (hNodup : (items.map (·.agreementId)).Nodup) :
    ∃ t' outcomes, t.applyReconciliationBatch now items = .ok (t', outcomes) ∧
      (∀ timed : List (Nat × ReconciliationItem), (timed.map (·.2)).Perm items →
        ∃ t'' outcomes', t.applyEach ∅ timed = .ok (t'', outcomes') ∧
          ∀ id, (t'.lookup id).map (·.status) = (t''.lookup id).map (·.status) ∧
            outcomes.lookup id = outcomes'.lookup id) ∧
      ∀ id row row', t.lookup id = some row → t'.lookup id = some row' →
        ((Outcomes.get outcomes id).didAccept = false →
          row'.acceptedAt = row.acceptedAt ∧ row'.acceptedTx = row.acceptedTx) ∧
        ((Outcomes.get outcomes id).didCancel = false →
          row'.canceledAt = row.canceledAt ∧ row'.canceledBy = row.canceledBy ∧
          row'.canceledTx = row.canceledTx) := by
  obtain ⟨t', outcomes, hBatch⟩ := applyReconciliationBatch_ok now t items
  refine ⟨t', outcomes, hBatch, ?_, ?_⟩
  · intro timed hPerm
    have hIds : (timed.map (·.2.agreementId)).Perm (items.map (·.agreementId)) := by
      have hMapped := hPerm.map (·.agreementId)
      rw [List.map_map] at hMapped
      exact hMapped
    obtain ⟨t'', outcomes', hEach, hItems, hOthers⟩ :=
      lookup_applyEach timed t ∅ (hIds.nodup_iff.mpr hNodup)
    refine ⟨t'', outcomes', hEach, fun id => ?_⟩
    by_cases hId : id ∈ timed.map (·.2.agreementId)
    · obtain ⟨p, hp, rfl⟩ := List.mem_map.mp hId
      have hItem : p.2 ∈ items := hPerm.mem_iff.mp (List.mem_map_of_mem hp)
      obtain ⟨hRow, hOut⟩ := lookup_batch_item hNodup hBatch hItem
      obtain ⟨hRow', hOut'⟩ := hItems p hp
      rw [hRow, hOut, hRow', hOut']
      cases t.lookup p.2.agreementId with
      | none => exact ⟨rfl, rfl⟩
      | some row =>
        obtain ⟨hStatus, hOutcome⟩ := transition_at now p.1 p.2.applyAccept p.2.cancel row
        refine ⟨congrArg some ?_, ?_⟩
        · exact (reconcileRow_status now p.2 row).trans hStatus
        · simp only [outcomeOf, Option.map_some, Option.getD_some, hOutcome]
    · have hId' : id ∉ items.map (·.agreementId) := fun h => hId (hIds.mem_iff.mpr h)
      obtain ⟨hRow, hOut⟩ := lookup_batch_of_notMem hNodup hBatch hId'
      obtain ⟨hRow', hOut'⟩ := hOthers id hId
      rw [hRow, hOut, hRow', hOut']
      exact ⟨rfl, rfl⟩
  · intro id row row' hRow hRow'
    by_cases hId : id ∈ items.map (·.agreementId)
    · obtain ⟨item, hItem, rfl⟩ := List.mem_map.mp hId
      obtain ⟨hMoved, hOut⟩ := lookup_batch_item hNodup hBatch hItem
      rw [hRow, Option.map_some] at hMoved
      obtain rfl := Option.some.inj (hRow'.symm.trans hMoved)
      rw [Outcomes.get_eq_of_lookup hOut, hRow]
      exact reconcileRow_unflagged now item row
    · obtain ⟨hSame, -⟩ := lookup_batch_of_notMem hNodup hBatch hId
      rw [hRow] at hSame
      obtain rfl := Option.some.inj (hRow'.symm.trans hSame)
      exact ⟨fun _ => ⟨rfl, rfl⟩, fun _ => ⟨rfl, rfl, rfl⟩⟩

def openRow : AgreementRow where
  indexingRequestId := 1
  deploymentId := "deployment"
  indexerId := 1
  terms := ⟨7, 10, 20, "deployment", 1, 0⟩
  termsVersionHash := none
  createdAt := 0
  updatedAt := 0

/-- Two agreements on offer, one accepted and one accepted and cancelled, in either order. -/
theorem batch_refines_single_pair : ∃ t' outcomes,
    Agreements.applyReconciliationBatch 5 ((AList.insert 1 openRow ∅).insert 2 openRow)
      [⟨1, true, none, {}⟩, ⟨2, true, some .byIndexer, {}⟩] = .ok (t', outcomes) ∧
    ∃ t'' outcomes', Agreements.applyEach ((AList.insert 1 openRow ∅).insert 2 openRow) ∅
        [(6, ⟨2, true, some .byIndexer, {}⟩), (7, ⟨1, true, none, {}⟩)] = .ok (t'', outcomes') ∧
      ∀ id, (t'.lookup id).map (·.status) = (t''.lookup id).map (·.status) ∧
        outcomes.lookup id = outcomes'.lookup id := by
  obtain ⟨t', outcomes, hBatch, hEach, -⟩ := batch_refines_single 5
    ((AList.insert 1 openRow ∅).insert 2 openRow)
    [⟨1, true, none, {}⟩, ⟨2, true, some .byIndexer, {}⟩] (by decide)
  exact ⟨t', outcomes, hBatch, hEach [(6, ⟨2, true, some .byIndexer, {}⟩), (7, ⟨1, true, none, {}⟩)]
    (List.Perm.swap _ _ _)⟩

end Agreements

end Dipper
