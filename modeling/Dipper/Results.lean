import Dipper.Effects

/-! What the result of an operation says of the world it was performed on. -/

namespace Dipper

theorem Choice.length_of_fresh {c : Choice} {id : IndexingAgreementId} {versionHash : List UInt8}
    (h : c.fresh? = some (id, versionHash)) : versionHash.length = 32 := by
  cases c with
  | fresh id' versionHash' =>
    simp only [fresh?, Option.ite_none_right_eq_some, Option.some.injEq, Prod.mk.injEq] at h
    obtain ⟨hLength, -, rfl⟩ := h
    exact hLength
  | _ => cases h

namespace World

variable {w w' : World} {id : IndexingAgreementId} {c : Choice}

theorem statement_ok {β : Type} {effect : World × Except RegistryError β} {value : β}
    (h : w.statement effect c = some (.ok value, w')) : effect = (w', .ok value) := by
  cases c <;> simp only [statement, Option.some.injEq, Prod.mk.injEq, reduceCtorEq, false_and] at h
  exact Prod.ext h.2 h.1

theorem statement_noRecordsUpdated {β : Type} {effect : World × Except RegistryError β}
    (h : w.statement effect c = some (.error .noRecordsUpdated, w')) :
    effect = (w', .error .noRecordsUpdated) := by
  cases c <;> simp only [statement, Option.some.injEq, Prod.mk.injEq, Except.error.injEq,
    reduceCtorEq, false_and] at h
  exact Prod.ext h.2 h.1

/-- A statement that failed, and whose answer was not lost, has done nothing. -/
theorem statement_error {β : Type} {effect : World × Except RegistryError β} {e : RegistryError}
    (hLost : c ≠ .lost) (hEffect : ∀ e, effect.2 = .error e → effect.1 = w)
    (h : w.statement effect c = some (.error e, w')) : w' = w := by
  cases c with
  | ok =>
    obtain ⟨hResult, rfl⟩ := Prod.mk.inj (Option.some.inj h)
    exact hEffect e hResult
  | fail => exact (Prod.mk.inj (Option.some.inj h)).2.symm
  | lost => exact absurd rfl hLost
  | _ => cases h

theorem runUpdate_error {u : RowUpdate} (e : RegistryError)
    (h : (w.runUpdate id u).2 = .error e) : (w.runUpdate id u).1 = w := by
  unfold runUpdate at h ⊢
  split
  · rfl
  · split
    · rfl
    · simp_all

theorem runRegister_error {params : NewAgreementParams} {replaces : Option IndexingAgreementId}
    (e : RegistryError) (h : (w.runRegister params replaces).2 = .error e) :
    (w.runRegister params replaces).1 = w := by
  unfold runRegister at h ⊢
  split
  · rfl
  · simp_all

theorem exec_update_ok {u : RowUpdate} {x : Updated} (hNeeds : u.needsRow = true)
    (h : w.exec (.update id u) c = some (.ok x, w')) :
    ∃ row row', w.row id = some row ∧ u.run w.now row = some row' ∧ w'.row id = some row' := by
  have hEffect := statement_ok h
  unfold runUpdate at hEffect
  rw [hNeeds] at hEffect
  split at hEffect
  · cases hEffect
  · rename_i row hRow
    split at hEffect
    · cases hEffect
    · rename_i row' hRun
      refine ⟨row, row', hRow, hRun, ?_⟩
      rw [← (Prod.mk.inj hEffect).1, row_setRow, if_pos rfl]

theorem exec_update_row {u : RowUpdate} {row row' : AgreementRow} {x : Updated}
    (h : w.exec (.update id u) c = some (.ok x, w')) (hRow : w.row id = some row)
    (hRun : u.run w.now row = some row') : w'.row id = some row' := by
  have hEffect := statement_ok h
  simp only [runUpdate, hRow, hRun] at hEffect
  rw [← (Prod.mk.inj hEffect).1, row_setRow, if_pos rfl]

theorem exec_update_missing {u : RowUpdate}
    (h : w.exec (.update id u) c = some (.error .noRecordsUpdated, w')) :
    w' = w ∧ ∀ row, w.row id = some row → u.run w.now row = none := by
  have hEffect := statement_noRecordsUpdated h
  unfold runUpdate at hEffect
  split at hEffect
  · rename_i hNone
    refine ⟨(Prod.mk.inj hEffect).1.symm, fun row hRow => ?_⟩
    rw [hNone] at hRow
    cases hRow
  · rename_i row hRow
    split at hEffect
    · rename_i hRun
      refine ⟨(Prod.mk.inj hEffect).1.symm, fun row' hRow' => ?_⟩
      obtain rfl := Option.some.inj (hRow.symm.trans hRow')
      exact hRun
    · cases hEffect

theorem mem_listed {ids : List IndexingAgreementId} {p : IndexingAgreementId × AgreementRow} :
    p ∈ w.listed ids ↔ p.1 ∈ ids ∧ w.row p.1 = some p.2 := by
  simp only [listed, List.mem_filterMap, Option.map_eq_some_iff]
  constructor
  · rintro ⟨a, ha, row, hRow, rfl⟩
    exact ⟨ha, hRow⟩
  · rintro ⟨hMem, hRow⟩
    exact ⟨p.1, hMem, p.2, hRow, rfl⟩

theorem nodup_listed {ids : List IndexingAgreementId} (hNodup : ids.Nodup) :
    ((w.listed ids).map (·.1)).Nodup := by
  refine hNodup.sublist ?_
  induction ids with
  | nil => exact .slnil
  | cons a ids ih =>
    have hRest := ih (List.nodup_cons.mp hNodup).2
    simp only [listed, List.filterMap_cons] at hRest ⊢
    cases w.row a with
    | none => exact hRest.cons a
    | some row => exact hRest.cons_cons a

theorem exec_select_ok {q : AgreementQuery} {rows : List (IndexingAgreementId × AgreementRow)}
    (h : w.exec (.select q) c = some (.ok rows, w')) :
    ∃ ids, q.Lists w.now w.requests w.agreements ids ∧ rows = w.listed ids := by
  change w.runSelect q c = some (.ok rows, w') at h
  cases c with
  | rows ids =>
    simp only [runSelect] at h
    split at h
    · rename_i hLists
      simp only [Option.some.injEq, Prod.mk.injEq, Except.ok.injEq] at h
      exact ⟨ids, hLists, h.1.symm⟩
    · cases h
  | _ => cases h

theorem exec_select_row {q : AgreementQuery} {rows : List (IndexingAgreementId × AgreementRow)}
    (h : w.exec (.select q) c = some (.ok rows, w'))
    {p : IndexingAgreementId × AgreementRow} (hMem : p ∈ rows) :
    w.row p.1 = some p.2 ∧ q.selects w.now w.requests p.1 p.2 = true := by
  obtain ⟨ids, hLists, rfl⟩ := exec_select_ok h
  obtain ⟨hId, hRow⟩ := mem_listed.mp hMem
  obtain ⟨row, hLookup, hSelects⟩ := hLists.selects hId
  obtain rfl := Option.some.inj (hRow.symm.trans hLookup)
  exact ⟨hRow, hSelects⟩

theorem exec_select_nodup {q : AgreementQuery} {rows : List (IndexingAgreementId × AgreementRow)}
    (h : w.exec (.select q) c = some (.ok rows, w')) : (rows.map (·.1)).Nodup := by
  obtain ⟨ids, hLists, rfl⟩ := exec_select_ok h
  exact nodup_listed hLists.nodup

theorem exec_select_complete {q : AgreementQuery}
    {rows : List (IndexingAgreementId × AgreementRow)}
    (h : w.exec (.select q) c = some (.ok rows, w')) (hAll : q ≠ .acceptedOnChain)
    (hLimit : q.limit = none) {row : AgreementRow} (hRow : w.row id = some row)
    (hSelects : q.selects w.now w.requests id row = true) : (id, row) ∈ rows := by
  obtain ⟨ids, hLists, rfl⟩ := exec_select_ok h
  refine mem_listed.mpr ⟨hLists.complete hAll hLimit ?_, hRow⟩
  exact AgreementQuery.mem_matching.mpr ⟨row, hRow, hSelects⟩

theorem exec_select_byId {rows : List (IndexingAgreementId × AgreementRow)}
    (h : w.exec (.select (.byId id)) c = some (.ok rows, w')) :
    rows.head? = (w.row id).map fun row => (id, row) := by
  have hRows : ∀ p ∈ rows, p.1 = id ∧ w.row id = some p.2 := by
    intro p hp
    obtain ⟨hRow, hSelects⟩ := exec_select_row h hp
    obtain rfl : p.1 = id := of_decide_eq_true hSelects
    exact ⟨rfl, hRow⟩
  cases hRow : w.row id with
  | none =>
    cases rows with
    | nil => rfl
    | cons p rest => exact absurd (hRow.symm.trans (hRows p (by simp)).2) nofun
  | some row =>
    have hMem := exec_select_complete h nofun rfl hRow (decide_eq_true rfl)
    cases rows with
    | nil => cases hMem
    | cons p rest =>
      obtain ⟨hId, hSome⟩ := hRows p (by simp)
      have hEq : p.2 = row := Option.some.inj (hSome.symm.trans hRow)
      rw [List.head?_cons, ← hId, ← hEq]
      rfl

theorem exec_select_accepted {limit : Nat}
    {r : Except RegistryError (List (IndexingAgreementId × AgreementRow))}
    (h : w.exec (.select (.pendingAcceptedEmission limit)) c = some (r, w'))
    (hId : id ∈ w'.acceptedListed) : ∃ rows, r = .ok rows ∧ id ∈ rows.map (·.1) := by
  change w.runSelect (.pendingAcceptedEmission limit) c = some (r, w') at h
  cases c with
  | rows ids =>
    simp only [runSelect] at h
    split at h
    · rename_i hLists
      simp only [Option.some.injEq, Prod.mk.injEq] at h
      obtain ⟨rfl, rfl⟩ := h
      obtain ⟨row, hRow, -⟩ := hLists.selects hId
      exact ⟨_, rfl, List.mem_map.mpr ⟨(id, row), mem_listed.mpr ⟨hId, hRow⟩, rfl⟩⟩
    · cases h
  | fail =>
    obtain ⟨-, rfl⟩ := Prod.mk.inj (Option.some.inj h)
    cases hId
  | _ => cases h

theorem exec_select_terminated {limit : Nat} {rows : List (IndexingAgreementId × AgreementRow)}
    (h : w.exec (.select (.pendingTerminatedEmission limit)) c = some (.ok rows, w')) :
    w'.terminatedListed = rows := by
  change w.runSelect (.pendingTerminatedEmission limit) c = some (.ok rows, w') at h
  cases c with
  | rows ids =>
    simp only [runSelect] at h
    split at h
    · simp only [Option.some.injEq, Prod.mk.injEq, Except.ok.injEq] at h
      obtain ⟨rfl, rfl⟩ := h
      rfl
    · cases h
  | _ => cases h

theorem exec_select_page {ids : List IndexingAgreementId}
    {rows : List (IndexingAgreementId × AgreementRow)}
    (h : w.exec (.select (.byIds ids)) c = some (.ok rows, w')) :
    w' = { w with pageListed := rows } ∧
      ∀ id ∈ ids, ∀ row, w.row id = some row → (id, row) ∈ rows := by
  change w.runSelect (.byIds ids) c = some (.ok rows, w') at h
  cases c with
  | rows listed =>
    simp only [runSelect] at h
    split at h
    · rename_i hLists
      simp only [Option.some.injEq, Prod.mk.injEq, Except.ok.injEq] at h
      obtain ⟨rfl, rfl⟩ := h
      refine ⟨rfl, fun id hId row hRow => mem_listed.mpr ⟨?_, hRow⟩⟩
      have hAll : AgreementQuery.byIds ids ≠ .acceptedOnChain := by
        intro hEq
        cases hEq
      refine hLists.complete hAll rfl (AgreementQuery.mem_matching.mpr ⟨row, hRow, ?_⟩)
      exact decide_eq_true hId
    · cases h
  | _ => cases h

theorem exec_batch_ok {items : List ReconciliationItem} {outcomes : Outcomes}
    (h : w.exec (.applyReconciliationBatch items) c = some (.ok outcomes, w'))
    {id : IndexingAgreementId} (hId : id ∈ acceptsOf items) : id ∈ w'.acceptsApplied := by
  have hEffect := statement_ok h
  unfold runBatch at hEffect
  split at hEffect
  · rw [← (Prod.mk.inj hEffect).1]
    exact List.mem_append_right _ hId
  · cases hEffect

theorem exec_batch_row {items : List ReconciliationItem} {outcomes : Outcomes}
    (h : w.exec (.applyReconciliationBatch items) c = some (.ok outcomes, w'))
    (hNodup : (items.map (·.agreementId)).Nodup) {item : ReconciliationItem} (hItem : item ∈ items)
    {row : AgreementRow} (hRow : w.row item.agreementId = some row) :
    w'.row item.agreementId = some (Agreements.reconcileRow w.now item row) := by
  have hEffect := statement_ok h
  unfold runBatch at hEffect
  split at hEffect
  · rename_i t outcomes' hOk
    exact row_of_batch hNodup hOk (by rw [← (Prod.mk.inj hEffect).1]) hItem hRow
  · cases hEffect

theorem chainRead_ok {β : Type} {value v : β} (h : w.chainRead value c = some (.ok v, w')) :
    v = value ∧ w' = w := by
  cases c <;> simp only [chainRead, Option.some.injEq, Prod.mk.injEq, reduceCtorEq, false_and,
    Except.ok.injEq] at h
  exact ⟨h.1.symm, h.2.symm⟩

theorem registryRead_ok {β : Type} {value v : β} (h : w.registryRead value c = some (.ok v, w')) :
    v = value ∧ w' = w := by
  cases c <;> simp only [registryRead, Option.some.injEq, Prod.mk.injEq, reduceCtorEq, false_and,
    Except.ok.injEq] at h
  exact ⟨h.1.symm, h.2.symm⟩

theorem send_ok {w1 : World} (h : w.send w1 c = some (.ok (), w')) : w' = w1 := by
  cases c <;> simp only [send, Option.some.injEq, Prod.mk.injEq, reduceCtorEq, false_and] at h
  exact h.2.symm

theorem send_sent {w1 : World} {r : Except Unit Unit} (hFail : c ≠ .fail)
    (h : w.send w1 c = some (r, w')) : w' = w1 := by
  cases c with
  | ok | lost => exact (Prod.mk.inj (Option.some.inj h)).2.symm
  | fail => exact absurd rfl hFail
  | _ => cases h

theorem exec_selectIndexers {request : IndexingRequestId} {n : Nat}
    {r : Except SelectionError (List SelectedIndexer)}
    (h : w.exec (.selectIndexers request n) c = some (r, w')) : c = .selected r := by
  obtain ⟨r', hSelected, hEq⟩ := Option.map_eq_some_iff.mp h
  obtain rfl : r' = r := (Prod.mk.inj hEq).1
  cases c <;> first | exact congrArg _ (Option.some.inj hSelected) | cases hSelected

theorem exec_iterate {ids order : List IndexerId}
    (h : w.exec (.iterate ids) c = some (order, w')) : order.Perm ids := by
  obtain ⟨order', hOrder, hEq⟩ := Option.map_eq_some_iff.mp h
  obtain rfl : order' = order := (Prod.mk.inj hEq).1
  cases c with
  | order ids' =>
    simp only [Choice.order?] at hOrder
    split at hOrder
    · rename_i hPerm
      exact Option.some.inj hOrder ▸ hPerm
    · cases hOrder
  | _ => cases hOrder

theorem exec_push_ok {job : Job} (h : w.exec (.push job) c = some (.ok (), w')) :
    job ∈ w'.jobs := by
  rw [send_ok h]
  exact List.mem_append_right _ (List.mem_singleton.mpr rfl)

theorem exec_emit_ok {event : Event} (h : w.exec (.emit event) c = some (.ok (), w')) :
    w' = { w with events := w.events ++ [event] } :=
  send_ok h

theorem exec_getChanged_cases {since : Cursor} {pinned : Option Nat}
    {r : Except ChainEventError ChangedAgreementsResponse}
    (h : w.exec (.getChanged since pinned) c = some (r, w')) :
    w' = w ∨ ∃ response, c = .page response ∧ (w.pin pinned).pinned.graph.Answers since response ∧
      w' = w.answered pinned response := by
  change w.runQuery since pinned c = some (r, w') at h
  cases c with
  | page response =>
    simp only [runQuery] at h
    split at h
    · rename_i hAnswers
      simp only [Option.some.injEq, Prod.mk.injEq] at h
      exact .inr ⟨response, rfl, hAnswers, h.2.symm⟩
    · cases h
  | noPage e =>
    simp only [runQuery, Option.some.injEq, Prod.mk.injEq] at h
    exact .inl h.2.symm
  | _ => cases h

theorem exec_getChanged_error {since : Cursor} {pinned : Option Nat} {e : ChainEventError}
    (h : w.exec (.getChanged since pinned) c = some (.error e, w')) : w' = w := by
  change w.runQuery since pinned c = some (.error e, w') at h
  cases c with
  | page response =>
    simp only [runQuery, Option.ite_none_right_eq_some, Option.some.injEq, Prod.mk.injEq,
      reduceCtorEq, false_and, and_false] at h
  | noPage e' =>
    simp only [runQuery, Option.some.injEq, Prod.mk.injEq] at h
    exact h.2.symm
  | _ => cases h

theorem exec_getChanged_ok {since : Cursor} {pinned : Option Nat} {r : ChangedAgreementsResponse}
    (h : w.exec (.getChanged since pinned) c = some (.ok r, w')) :
    w' = w.answered pinned r ∧ w'.pinned.graph.Answers since r := by
  change w.runQuery since pinned c = some (.ok r, w') at h
  cases c with
  | page response =>
    simp only [runQuery] at h
    split at h
    · rename_i hAnswers
      simp only [Option.some.injEq, Prod.mk.injEq, Except.ok.injEq] at h
      obtain ⟨rfl, rfl⟩ := h
      exact ⟨rfl, hAnswers⟩
    · cases h
  | _ => cases h

end World

end Dipper
