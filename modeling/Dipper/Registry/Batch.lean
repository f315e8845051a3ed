import Dipper.Registry.Database

/-! What the transaction that applies a page of reconciliations does to each row.  The items of a
page are of different agreements, so each row goes through its own item only. -/

namespace Dipper

def AgreementRow.applied (f : AgreementRow → Option AgreementRow) (row : AgreementRow) :
    AgreementRow :=
  (f row).getD row

namespace Agreements

variable {now : Nat} {t t' : Agreements} {id id' : IndexingAgreementId}
  {ids : List IndexingAgreementId} {f : AgreementRow → Option AgreementRow}

theorem lookup_updateRow (f : AgreementRow → Option AgreementRow) :
    ((t.updateRow id f).getD t).lookup id' =
      if id' = id then (t.lookup id').map (AgreementRow.applied f) else t.lookup id' := by
  unfold updateRow
  by_cases h : id' = id
  · subst h
    cases hRow : t.lookup id' with
    | none => simp [hRow]
    | some row => cases hf : f row <;> simp [AgreementRow.applied, hf, hRow]
  · rw [if_neg h]
    cases (t.lookup id).bind f with
    | none => rfl
    | some row' => exact AList.lookup_insert_ne h

theorem isSome_updateRow (f : AgreementRow → Option AgreementRow) :
    (t.updateRow id f).isSome = (t.lookup id).any fun row => (f row).isSome := by
  unfold updateRow
  cases t.lookup id with
  | none => rfl
  | some row => simp

theorem updateRows_cons (f : AgreementRow → Option AgreementRow) (t : Agreements)
    (id : IndexingAgreementId) (ids : List IndexingAgreementId) :
    t.updateRows f (id :: ids) =
      let rest := ((t.updateRow id f).getD t).updateRows f ids
      (rest.1, if (t.updateRow id f).isSome then id :: rest.2 else rest.2) := by
  simp only [updateRows]
  cases t.updateRow id f <;> rfl

theorem lookup_updateRows (hNodup : ids.Nodup) :
    (t.updateRows f ids).1.lookup id =
      if id ∈ ids then (t.lookup id).map (AgreementRow.applied f) else t.lookup id := by
  induction ids generalizing t with
  | nil => simp [updateRows]
  | cons a ids ih =>
    obtain ⟨hNot, hNodup⟩ := List.nodup_cons.mp hNodup
    simp only [updateRows_cons, ih hNodup, lookup_updateRow, List.mem_cons]
    by_cases hId : id = a
    · simp [hId, hNot]
    · simp [hId]

theorem mem_updateRows (hNodup : ids.Nodup) :
    id ∈ (t.updateRows f ids).2 ↔
      id ∈ ids ∧ ∃ row, t.lookup id = some row ∧ (f row).isSome = true := by
  induction ids generalizing t with
  | nil => simp [updateRows]
  | cons a ids ih =>
    obtain ⟨hNot, hNodup⟩ := List.nodup_cons.mp hNodup
    have hRest : id ∈ (((t.updateRow a f).getD t).updateRows f ids).2 ↔
        id ∈ ids ∧ ∃ row, t.lookup id = some row ∧ (f row).isSome = true := by
      rw [ih hNodup, lookup_updateRow]
      by_cases hId : id = a
      · simp [hId, hNot]
      · simp [hId]
    simp only [updateRows_cons, isSome_updateRow, List.mem_cons]
    by_cases hId : id = a
    · subst hId
      split
      · rename_i hAny
        simpa [Option.any_eq_true] using hAny
      · rename_i hAny
        rw [hRest]
        simp only [hNot, false_and, or_false, true_and, false_iff]
        simpa [Option.any_eq_true] using hAny
    · split <;> simp [hId, hRest]

def acceptRow (now : Nat) (row : AgreementRow) : Option AgreementRow :=
  setStatusFrom now .acceptedOnChain acceptFrom row

def cancelRow (now : Nat) (kind : CancelKind) (row : AgreementRow) : Option AgreementRow :=
  match kind with
  | .byRequester =>
    setStatusFrom now (if row.abandoned then .abandonedByIndexer else .canceledByRequester)
      cancelByRequesterFrom row
  | .byIndexer => setStatusFrom now .canceledByIndexer cancelByIndexerFrom row

theorem batchApplyCancel_eq (kind : CancelKind) :
    t.batchApplyCancel now ids kind = t.updateRows (cancelRow now kind) ids := by
  cases kind <;> rfl

/-- The row an item's accept and cancel leave, and what they did. -/
def transition (now : Nat) (applyAccept : Bool) (cancel : Option CancelKind)
    (row : AgreementRow) : AgreementRow × ReconciliationOutcome :=
  let accepted := if applyAccept then acceptRow now row else none
  let mid := accepted.getD row
  let canceled := cancel.bind fun kind => cancelRow now kind mid
  (canceled.getD mid, ⟨accepted.isSome, canceled.isSome⟩)

theorem updateStatusFrom_eq (newStatus : IndexingAgreementStatus)
    (allowedFrom : List IndexingAgreementStatus) :
    t.updateStatusFrom now id newStatus allowedFrom =
      ((t.updateRow id (setStatusFrom now newStatus allowedFrom)).getD t,
        (t.updateRow id (setStatusFrom now newStatus allowedFrom)).isSome) := by
  simp only [updateStatusFrom, batchSetStatus, updateRows]
  cases t.updateRow id (setStatusFrom now newStatus allowedFrom) <;> rfl

theorem applyCancel_eq (kind : CancelKind) :
    t.applyCancel now id kind = ((t.updateRow id (cancelRow now kind)).getD t,
      (t.updateRow id (cancelRow now kind)).isSome) := by
  simp only [applyCancel, batchApplyCancel_eq, updateRows]
  cases t.updateRow id (cancelRow now kind) <;> rfl

theorem lookup_acceptIf (applyAccept : Bool) :
    (t.acceptIf now applyAccept id).1.lookup id' =
      if id' = id then
        (t.lookup id').map fun row => (transition now applyAccept none row).1
      else t.lookup id' := by
  cases applyAccept with
  | false => simp [acceptIf, transition]
  | true =>
    simp only [acceptIf, updateStatusFrom_eq, if_true, lookup_updateRow]
    rfl

theorem acceptIf_snd (applyAccept : Bool) :
    (t.acceptIf now applyAccept id).2 =
      (t.lookup id).any fun row => (transition now applyAccept none row).2.didAccept := by
  cases applyAccept with
  | false => cases t.lookup id <;> simp [acceptIf, transition]
  | true =>
    simp only [acceptIf, updateStatusFrom_eq, if_true, isSome_updateRow]
    rfl

theorem lookup_applyCancel_acceptIf (applyAccept : Bool) (kind : CancelKind) :
    ((t.acceptIf now applyAccept id).1.applyCancel now id kind).1.lookup id' =
      if id' = id then
        (t.lookup id').map fun row => (transition now applyAccept (some kind) row).1
      else t.lookup id' := by
  simp only [applyCancel_eq, lookup_updateRow, lookup_acceptIf]
  split
  · rw [Option.map_map]
    rfl
  · rfl

def outcomeOf (now : Nat) (applyAccept : Bool) (cancel : Option CancelKind)
    (row : Option AgreementRow) : ReconciliationOutcome :=
  (row.map fun row => (transition now applyAccept cancel row).2).getD {}

theorem outcomeOf_cancel (applyAccept : Bool) (kind : CancelKind) :
    (⟨(t.acceptIf now applyAccept id).2,
      ((t.acceptIf now applyAccept id).1.applyCancel now id kind).2⟩ : ReconciliationOutcome) =
      outcomeOf now applyAccept (some kind) (t.lookup id) := by
  simp only [applyCancel_eq, isSome_updateRow, lookup_acceptIf, if_true, acceptIf_snd]
  cases t.lookup id <;> rfl

theorem lookup_applyReconciliation {applyAccept : Bool} {cancel : Option CancelKind}
    {outcome : ReconciliationOutcome}
    (h : t.applyReconciliation now id applyAccept cancel = .ok (t', outcome)) :
    t'.lookup id' =
      if id' = id then (t.lookup id').map fun row => (transition now applyAccept cancel row).1
      else t.lookup id' := by
  cases cancel with
  | none =>
    obtain ⟨rfl, rfl⟩ : (t.acceptIf now applyAccept id).1 = t' ∧ _ = outcome := by
      simpa [applyReconciliation] using h
    exact lookup_acceptIf applyAccept
  | some kind =>
    have hOk : ((t.acceptIf now applyAccept id).1.applyCancel now id kind).1 = t' := by
      simp only [applyReconciliation] at h
      split at h
      · cases h
      · exact congrArg Prod.fst (Except.ok.inj h)
    rw [← hOk]
    exact lookup_applyCancel_acceptIf applyAccept kind

def reconcileRow (now : Nat) (item : ReconciliationItem) (row : AgreementRow) : AgreementRow :=
  let moved := transition now item.applyAccept item.cancel row
  persistAudit moved.2 item.audit moved.1

theorem lookup_applyPaired {items : List ReconciliationItem} {outcomes outcomes' : Outcomes}
    (hNodup : (items.map (·.agreementId)).Nodup)
    (hPaired : ∀ item ∈ items, item.applyAccept = true ∧ item.cancel.isSome = true)
    (h : t.applyPaired now outcomes items = .ok (t', outcomes')) :
    (∀ item ∈ items, t'.lookup item.agreementId =
        (t.lookup item.agreementId).map fun row =>
          (transition now item.applyAccept item.cancel row).1) ∧
      (∀ item ∈ items, outcomes'.lookup item.agreementId =
        some (outcomeOf now item.applyAccept item.cancel (t.lookup item.agreementId))) ∧
      ∀ id ∉ items.map (·.agreementId),
        t'.lookup id = t.lookup id ∧ outcomes'.lookup id = outcomes.lookup id := by
  induction items generalizing t outcomes with
  | nil =>
    obtain ⟨rfl, rfl⟩ : t = t' ∧ outcomes = outcomes' := by simpa [applyPaired] using h
    simp
  | cons item items ih =>
    obtain ⟨hNot, hNodup⟩ := List.nodup_cons.mp hNodup
    obtain ⟨hAccept, hCancel⟩ := hPaired item (by simp)
    obtain ⟨kind, hKind⟩ := Option.isSome_iff_exists.mp hCancel
    have hStep : ∀ id, ((t.acceptIf now true item.agreementId).1.applyCancel now
        item.agreementId kind).1.lookup id = if id = item.agreementId then
          (t.lookup id).map fun row => (transition now true (some kind) row).1
        else t.lookup id := fun id => lookup_applyCancel_acceptIf true kind
    have hOutcome : (⟨(t.acceptIf now true item.agreementId).2, ((t.acceptIf now true
        item.agreementId).1.applyCancel now item.agreementId kind).2⟩ : ReconciliationOutcome) =
        outcomeOf now true (some kind) (t.lookup item.agreementId) := outcomeOf_cancel true kind
    simp only [applyPaired, hKind] at h
    change (if _ then _ else applyPaired now
      ((t.acceptIf now true item.agreementId).1.applyCancel now item.agreementId kind).1
      (outcomes.insert item.agreementId ⟨(t.acceptIf now true item.agreementId).2,
        ((t.acceptIf now true item.agreementId).1.applyCancel now item.agreementId kind).2⟩)
      items) = _ at h
    split at h
    · cases h
    rw [hOutcome] at h
    obtain ⟨hRows, hOutcomes, hRest⟩ := ih hNodup (fun i hi => hPaired i (by simp [hi])) h
    refine ⟨?_, ?_, ?_⟩
    · intro i hi
      rcases List.mem_cons.mp hi with rfl | hi
      · rw [(hRest _ hNot).1, hStep, if_pos rfl, hAccept, hKind]
      · have hNe : i.agreementId ≠ item.agreementId := fun hEq =>
          hNot (List.mem_map.mpr ⟨i, hi, hEq⟩)
        rw [hRows i hi, hStep, if_neg hNe]
    · intro i hi
      rcases List.mem_cons.mp hi with rfl | hi
      · rw [(hRest _ hNot).2, AList.lookup_insert, hAccept, hKind]
      · have hNe : i.agreementId ≠ item.agreementId := fun hEq =>
          hNot (List.mem_map.mpr ⟨i, hi, hEq⟩)
        rw [hOutcomes i hi, hStep, if_neg hNe]
    · intro id hId
      simp only [List.map_cons, List.mem_cons, not_or] at hId
      obtain ⟨hRow, hOut⟩ := hRest id hId.2
      rw [hRow, hOut, hStep, if_neg hId.1, AList.lookup_insert_ne hId.1]
      exact ⟨rfl, rfl⟩

end Agreements

namespace Outcomes

variable {outcomes : Outcomes} {id : IndexingAgreementId} {ids : List IndexingAgreementId}

theorem get_eq_of_lookup {outcome : ReconciliationOutcome} (h : outcomes.lookup id = some outcome) :
    Outcomes.get outcomes id = outcome := by
  rw [Outcomes.get, h, Option.getD_some]

theorem lookup_foldl_insert (f : ReconciliationOutcome → ReconciliationOutcome)
    (hf : ∀ o, f (f o) = f o) :
    (ids.foldl (fun out a => out.insert a (f (Outcomes.get out a))) outcomes).lookup id =
      if id ∈ ids then some (f (Outcomes.get outcomes id)) else outcomes.lookup id := by
  induction ids generalizing outcomes with
  | nil => simp
  | cons a ids ih =>
    rw [List.foldl_cons, ih]
    by_cases hId : id = a
    · subst hId
      simp [Outcomes.get, hf]
    · simp [hId, Outcomes.get, AList.lookup_insert_ne hId]

theorem lookup_setAccepted : (Outcomes.setAccepted outcomes ids).lookup id =
    if id ∈ ids then some { Outcomes.get outcomes id with didAccept := true }
    else outcomes.lookup id :=
  lookup_foldl_insert (fun o => { o with didAccept := true }) fun _ => rfl

theorem lookup_setCanceled : (Outcomes.setCanceled outcomes ids).lookup id =
    if id ∈ ids then some { Outcomes.get outcomes id with didCancel := true }
    else outcomes.lookup id :=
  lookup_foldl_insert (fun o => { o with didCancel := true }) fun _ => rfl

theorem lookup_initial (items : List ReconciliationItem) :
    (items.foldl (fun out item => out.insert item.agreementId {}) outcomes).lookup id =
      if id ∈ items.map (·.agreementId) then some {} else outcomes.lookup id := by
  induction items generalizing outcomes with
  | nil => simp
  | cons item items ih =>
    rw [List.foldl_cons, ih]
    by_cases hId : id = item.agreementId
    · subst hId
      simp
    · simp [hId, AList.lookup_insert_ne hId]

end Outcomes

namespace Agreements

variable {now : Nat} {t t' : Agreements} {items : List ReconciliationItem}
  {outcomes : Outcomes} {item : ReconciliationItem}

theorem lookup_persistAudits (hNodup : (items.map (·.agreementId)).Nodup) :
    (∀ item ∈ items, (persistAudits outcomes t items).lookup item.agreementId =
        (t.lookup item.agreementId).map
          (persistAudit (Outcomes.get outcomes item.agreementId) item.audit)) ∧
      ∀ id ∉ items.map (·.agreementId),
        (persistAudits outcomes t items).lookup id = t.lookup id := by
  induction items generalizing t with
  | nil => simp [persistAudits]
  | cons item items ih =>
    obtain ⟨hNot, hNodup⟩ := List.nodup_cons.mp hNodup
    obtain ⟨hRows, hRest⟩ := ih hNodup
    refine ⟨?_, ?_⟩
    · intro i hi
      rcases List.mem_cons.mp hi with rfl | hi
      · rw [persistAudits, hRest _ hNot, lookup_updateRow, if_pos rfl]
        rfl
      · have hNe : i.agreementId ≠ item.agreementId := fun hEq =>
          hNot (List.mem_map.mpr ⟨i, hi, hEq⟩)
        rw [persistAudits, hRows i hi, lookup_updateRow, if_neg hNe]
    · intro id hId
      simp only [List.map_cons, List.mem_cons, not_or] at hId
      rw [persistAudits, hRest id hId.2, lookup_updateRow, if_neg hId.1]

theorem nodup_idsOf (hNodup : (items.map (·.agreementId)).Nodup) (p : ReconciliationItem → Bool) :
    (idsOf items p).Nodup :=
  hNodup.sublist (List.filter_sublist.map _)

theorem mem_idsOf (hNodup : (items.map (·.agreementId)).Nodup) (hItem : item ∈ items)
    (p : ReconciliationItem → Bool) : item.agreementId ∈ idsOf items p ↔ p item = true := by
  simp only [idsOf, List.mem_map, List.mem_filter]
  constructor
  · rintro ⟨i, ⟨hi, hp⟩, hEq⟩
    rwa [← List.inj_on_of_nodup_map hNodup hi hItem hEq]
  · exact fun hp => ⟨item, ⟨hItem, hp⟩, rfl⟩

theorem lookup_updateRows_idsOf (hNodup : (items.map (·.agreementId)).Nodup)
    (hItem : item ∈ items) (p : ReconciliationItem → Bool)
    (f : AgreementRow → Option AgreementRow) :
    (t.updateRows f (idsOf items p)).1.lookup item.agreementId =
      if p item then (t.lookup item.agreementId).map (AgreementRow.applied f)
      else t.lookup item.agreementId := by
  simp only [lookup_updateRows (nodup_idsOf hNodup p), mem_idsOf hNodup hItem]

theorem lookup_updateRows_idsOf_of_notMem {id : IndexingAgreementId}
    (hNodup : (items.map (·.agreementId)).Nodup) (hId : id ∉ items.map (·.agreementId))
    (p : ReconciliationItem → Bool) (f : AgreementRow → Option AgreementRow) :
    (t.updateRows f (idsOf items p)).1.lookup id = t.lookup id := by
  rw [lookup_updateRows (nodup_idsOf hNodup p), if_neg]
  exact fun h => hId ((List.filter_sublist.map _).subset h)

theorem mem_updateRows_idsOf (hNodup : (items.map (·.agreementId)).Nodup)
    (hItem : item ∈ items) (p : ReconciliationItem → Bool)
    (f : AgreementRow → Option AgreementRow) :
    item.agreementId ∈ (t.updateRows f (idsOf items p)).2 ↔
      p item = true ∧ ∃ row, t.lookup item.agreementId = some row ∧ (f row).isSome = true := by
  rw [mem_updateRows (nodup_idsOf hNodup p), mem_idsOf hNodup hItem]

theorem notMem_updateRows_idsOf {id : IndexingAgreementId}
    (hNodup : (items.map (·.agreementId)).Nodup) (hId : id ∉ items.map (·.agreementId))
    (p : ReconciliationItem → Bool) (f : AgreementRow → Option AgreementRow) :
    id ∉ (t.updateRows f (idsOf items p)).2 := by
  rw [mem_updateRows (nodup_idsOf hNodup p)]
  exact fun h => hId ((List.filter_sublist.map _).subset h.1)

theorem phases_of_batch (h : t.applyReconciliationBatch now items = .ok (t', outcomes)) :
    ∃ t1 t2 t3 t4 outcomes1 accepted requested indexed,
      t.applyPaired now (items.foldl (fun out item => out.insert item.agreementId {}) ∅)
        (items.filter fun item => item.applyAccept && item.cancel.isSome) = .ok (t1, outcomes1) ∧
      t1.updateRows (acceptRow now)
        (idsOf items fun item => item.applyAccept && item.cancel.isNone) = (t2, accepted) ∧
      t2.updateRows (cancelRow now .byRequester)
        (idsOf items fun item => !item.applyAccept && item.cancel = some .byRequester) =
          (t3, requested) ∧
      t3.updateRows (cancelRow now .byIndexer)
        (idsOf items fun item => !item.applyAccept && item.cancel = some .byIndexer) =
          (t4, indexed) ∧
      outcomes = Outcomes.setCanceled (Outcomes.setCanceled
        (Outcomes.setAccepted outcomes1 accepted) requested) indexed ∧
      t' = persistAudits outcomes t4 items := by
  simp only [applyReconciliationBatch, batchApplyCancel_eq] at h
  cases hPaired : t.applyPaired now
      (items.foldl (fun out item => out.insert item.agreementId {}) ∅)
      (items.filter fun item => item.applyAccept && item.cancel.isSome) with
  | error e =>
    rw [hPaired] at h
    cases h
  | ok x =>
    rw [hPaired] at h
    obtain ⟨rfl, rfl⟩ := Prod.mk.inj (Except.ok.inj h)
    exact ⟨x.1, _, _, _, x.2, _, _, _, rfl, rfl, rfl, rfl, rfl, rfl⟩

/-- Under a transaction that commits, an item's row goes through its accept, its cancel and the
audit of what happened, and its outcome says what did. -/
theorem lookup_batch_item (hNodup : (items.map (·.agreementId)).Nodup)
    (h : t.applyReconciliationBatch now items = .ok (t', outcomes)) (hItem : item ∈ items) :
    t'.lookup item.agreementId = (t.lookup item.agreementId).map (reconcileRow now item) ∧
      outcomes.lookup item.agreementId =
        some (outcomeOf now item.applyAccept item.cancel (t.lookup item.agreementId)) := by
  obtain ⟨t1, t2, t3, t4, outcomes1, accepted, requested, indexed, hPaired, h2, h3, h4, hOut,
    hT⟩ := phases_of_batch h
  obtain ⟨hPairRows, hPairOut, hPairRest⟩ :=
    lookup_applyPaired (nodup_idsOf hNodup _) (by simp) hPaired
  have hRow2 := lookup_updateRows_idsOf (t := t1) hNodup hItem
    (fun item => item.applyAccept && item.cancel.isNone) (acceptRow now)
  have hRow3 := lookup_updateRows_idsOf (t := t2) hNodup hItem
    (fun item => !item.applyAccept && item.cancel = some .byRequester) (cancelRow now .byRequester)
  have hRow4 := lookup_updateRows_idsOf (t := t3) hNodup hItem
    (fun item => !item.applyAccept && item.cancel = some .byIndexer) (cancelRow now .byIndexer)
  have hMem2 := mem_updateRows_idsOf (t := t1) hNodup hItem
    (fun item => item.applyAccept && item.cancel.isNone) (acceptRow now)
  have hMem3 := mem_updateRows_idsOf (t := t2) hNodup hItem
    (fun item => !item.applyAccept && item.cancel = some .byRequester) (cancelRow now .byRequester)
  have hMem4 := mem_updateRows_idsOf (t := t3) hNodup hItem
    (fun item => !item.applyAccept && item.cancel = some .byIndexer) (cancelRow now .byIndexer)
  rw [h2] at hRow2 hMem2
  rw [h3] at hRow3 hMem3
  rw [h4] at hRow4 hMem4
  -- The row after the statements, and its outcome, by the kind of the item.
  have hMoved : t4.lookup item.agreementId = (t.lookup item.agreementId).map (fun row =>
        (transition now item.applyAccept item.cancel row).1) ∧
      outcomes.lookup item.agreementId =
        some (outcomeOf now item.applyAccept item.cancel (t.lookup item.agreementId)) := by
    have hInit : (items.foldl (fun out item => out.insert item.agreementId {})
        (∅ : Outcomes)).lookup item.agreementId = some {} := by
      rw [Outcomes.lookup_initial, if_pos (List.mem_map_of_mem hItem)]
    have hPairMem := mem_idsOf hNodup hItem fun item => item.applyAccept && item.cancel.isSome
    rw [hOut]
    simp only [Outcomes.lookup_setCanceled, Outcomes.lookup_setAccepted, Outcomes.get, hMem2,
      hMem3, hMem4, hRow4, hRow3, hRow2]
    by_cases hPair : (item.applyAccept && item.cancel.isSome) = true
    · have hMem : item ∈ items.filter fun item => item.applyAccept && item.cancel.isSome :=
        List.mem_filter.mpr ⟨hItem, hPair⟩
      obtain ⟨hA, hC⟩ := Bool.and_eq_true_iff.mp hPair
      have hNone : item.cancel.isNone = false := by simpa using hC
      simp [hPairRows item hMem, hPairOut item hMem, hA, hNone]
    · obtain ⟨hT1, hOut1⟩ := hPairRest _ (fun hIn => hPair (hPairMem.mp hIn))
      rw [hOut1, hInit, hT1]
      have hUnpaired : item.applyAccept = true → item.cancel = none := by simpa using hPair
      -- At most one of the statements is for the row.
      generalize t.lookup item.agreementId = row
      generalize item.applyAccept = accept at hUnpaired ⊢
      generalize item.cancel = cancel at hUnpaired ⊢
      cases accept with
      | true =>
        obtain rfl := hUnpaired rfl
        cases row with
        | none => simp [outcomeOf]
        | some row =>
          cases hf : acceptRow now row <;>
            simp [transition, outcomeOf, AgreementRow.applied, hf]
      | false =>
        cases row with
        | none => simp [outcomeOf]
        | some row =>
          rcases cancel with _ | kind
          · simp [transition, outcomeOf]
          · cases hf : cancelRow now kind row <;> cases kind <;>
              simp [transition, outcomeOf, AgreementRow.applied, hf]
  refine ⟨?_, hMoved.2⟩
  rw [hT, (lookup_persistAudits hNodup).1 item hItem, hMoved.1, Option.map_map,
    Outcomes.get_eq_of_lookup hMoved.2]
  cases t.lookup item.agreementId <;> rfl

theorem lookup_batch_of_notMem {id : IndexingAgreementId}
    (hNodup : (items.map (·.agreementId)).Nodup)
    (h : t.applyReconciliationBatch now items = .ok (t', outcomes))
    (hId : id ∉ items.map (·.agreementId)) :
    t'.lookup id = t.lookup id ∧ outcomes.lookup id = none := by
  obtain ⟨t1, t2, t3, t4, outcomes1, accepted, requested, indexed, hPaired, h2, h3, h4, hOut,
    hT⟩ := phases_of_batch h
  obtain ⟨-, -, hPairRest⟩ := lookup_applyPaired (nodup_idsOf hNodup _) (by simp) hPaired
  obtain ⟨hT1, hOut1⟩ := hPairRest id fun hIn => hId ((List.filter_sublist.map _).subset hIn)
  have hRow2 := lookup_updateRows_idsOf_of_notMem (t := t1) hNodup hId
    (fun item => item.applyAccept && item.cancel.isNone) (acceptRow now)
  have hRow3 := lookup_updateRows_idsOf_of_notMem (t := t2) hNodup hId
    (fun item => !item.applyAccept && item.cancel = some .byRequester) (cancelRow now .byRequester)
  have hRow4 := lookup_updateRows_idsOf_of_notMem (t := t3) hNodup hId
    (fun item => !item.applyAccept && item.cancel = some .byIndexer) (cancelRow now .byIndexer)
  have hMem2 := notMem_updateRows_idsOf (t := t1) hNodup hId
    (fun item => item.applyAccept && item.cancel.isNone) (acceptRow now)
  have hMem3 := notMem_updateRows_idsOf (t := t2) hNodup hId
    (fun item => !item.applyAccept && item.cancel = some .byRequester) (cancelRow now .byRequester)
  have hMem4 := notMem_updateRows_idsOf (t := t3) hNodup hId
    (fun item => !item.applyAccept && item.cancel = some .byIndexer) (cancelRow now .byIndexer)
  rw [h2] at hRow2 hMem2
  rw [h3] at hRow3 hMem3
  rw [h4] at hRow4 hMem4
  constructor
  · rw [hT, (lookup_persistAudits hNodup).2 id hId, hRow4, hRow3, hRow2, hT1]
  · rw [hOut, Outcomes.lookup_setCanceled, if_neg hMem4, Outcomes.lookup_setCanceled,
      if_neg hMem3, Outcomes.lookup_setAccepted, if_neg hMem2, hOut1, Outcomes.lookup_initial,
      if_neg hId]
    rfl

end Agreements

end Dipper
