import Dipper.Registry.StateMachine
import Dipper.World

/-! What each operation can do to the world, whatever way it comes out, and what it does to one
row. -/

namespace Dipper

def Op.registers : Op → Bool
  | .register .. => true
  | _ => false

namespace World

/-- `w'` is what an operation can leave of `w`. -/
def Effect (w w' : World) : Op → Prop
  | .select (.pendingTerminatedEmission limit) => w' = w ∨ ∃ ids,
      (AgreementQuery.pendingTerminatedEmission limit).Lists w.now w.requests w.agreements ids ∧
      w' = { w with terminatedListed := w.listed ids }
  | .select (.pendingAcceptedEmission _) => w' = { w with acceptedListed := w'.acceptedListed }
  | .select (.byIds ids) => w' = w ∨ ∃ listed,
      (AgreementQuery.byIds ids).Lists w.now w.requests w.agreements listed ∧
      w' = { w with pageListed := w.listed listed }
  | .update id u => w' = w ∨ w' = (w.runUpdate id u).1
  | .applyReconciliation id applyAccept cancel =>
    w' = w ∨ w' = (w.runReconciliation id applyAccept cancel).1
  | .applyReconciliationBatch items => w' = w ∨ w' = (w.runBatch items).1
  | .register params replaces => w' = w ∨ w' = (w.runRegister params replaces).1
  | .deletePendingByNew new =>
    w' = w ∨ w' = { w with pending := w.pending.filter fun p => p.1 ≠ new }
  | .deletePending new old =>
    w' = w ∨ w' = { w with pending := w.pending.filter fun p => p ≠ (new, old) }
  | .setShortfallActive .. => w' = { w with requests := w'.requests }
  | .updateListenerState cursor timestamp =>
    w' = w ∨ w' = w.setListenerState cursor timestamp
  | .offerViaManager id deadline =>
    w' = w ∨ w' = w.setChain id ((w.chain id).offer deadline)
  | .cancelViaManager id _ => w' = w ∨ w' = w.setChain id ((w.chain id).cancel w.chainTime)
  | .getChanged since pinned => w' = w ∨ ∃ r,
      (w.pin pinned).pinned.graph.Answers since r ∧ w' = w.answered pinned r
  | .emit event => w' = w ∨ w' = { w with events := w.events ++ [event] }
  | .push job => w' = w ∨ w' = { w with jobs := w.jobs ++ [job] }
  | .note n => w' = { w with journal := w.journal ++ [n] }
  | .remember memory => w' = { w with memory := memory }
  | _ => w' = w

variable {w w' : World}

theorem statement_effect {β : Type} {effect : World × Except RegistryError β} {c : Choice}
    {r : Except RegistryError β} (h : w.statement effect c = some (r, w')) :
    w' = w ∨ w' = effect.1 := by
  cases c <;> simp only [statement, Option.some.injEq, Prod.mk.injEq, reduceCtorEq] at h
  · exact .inr h.2.symm
  · exact .inl h.2.symm
  · exact .inr h.2.symm

theorem registryRead_effect {β : Type} {value : β} {c : Choice} {r : Except RegistryError β}
    (h : w.registryRead value c = some (r, w')) : w' = w := by
  cases c <;> simp only [registryRead, Option.some.injEq, Prod.mk.injEq, reduceCtorEq] at h
  · exact h.2.symm
  · exact h.2.symm

theorem transaction_effect {w1 : World} {c : Choice} {r : Except ChainClientError (Option TxHash)}
    (h : w.transaction w1 c = some (r, w')) : w' = w ∨ w' = w1 := by
  cases c <;> simp only [transaction, Option.some.injEq, Prod.mk.injEq, reduceCtorEq] at h
  all_goals
    obtain ⟨-, rfl⟩ := h
    split
    · exact .inr rfl
    · exact .inl rfl

theorem chainRead_effect {β : Type} {value : β} {c : Choice} {r : Except ChainClientError β}
    (h : w.chainRead value c = some (r, w')) : w' = w := by
  cases c <;> simp only [chainRead, Option.some.injEq, Prod.mk.injEq, reduceCtorEq] at h
  · exact h.2.symm
  · exact h.2.symm

theorem send_effect {w1 : World} {c : Choice} {r : Except Unit Unit}
    (h : w.send w1 c = some (r, w')) : w' = w ∨ w' = w1 := by
  cases c <;> simp only [send, Option.some.injEq, Prod.mk.injEq, reduceCtorEq] at h
  · exact .inr h.2.symm
  · exact .inl h.2.symm
  · exact .inr h.2.symm

theorem runSelect_effect {q : AgreementQuery} {c : Choice}
    {r : Except RegistryError (List (IndexingAgreementId × AgreementRow))}
    (h : w.runSelect q c = some (r, w')) : Effect w w' (.select q) := by
  cases c <;> simp only [runSelect, Option.some.injEq, Prod.mk.injEq, reduceCtorEq] at h
  · obtain ⟨-, rfl⟩ := h
    cases q <;> first | rfl | exact .inl rfl
  · rename_i ids
    split at h
    · rename_i hLists
      simp only [Option.some.injEq, Prod.mk.injEq] at h
      obtain ⟨-, rfl⟩ := h
      cases q <;> first | rfl | exact .inr ⟨ids, hLists, rfl⟩
    · cases h

theorem runQuery_effect {since : Cursor} {pinned : Option Nat} {c : Choice}
    {r : Except ChainEventError ChangedAgreementsResponse}
    (h : w.runQuery since pinned c = some (r, w')) : Effect w w' (.getChanged since pinned) := by
  cases c <;> simp only [runQuery, Option.some.injEq, Prod.mk.injEq, reduceCtorEq] at h
  · rename_i r
    split at h
    · rename_i hAnswers
      simp only [Option.some.injEq, Prod.mk.injEq] at h
      obtain ⟨-, rfl⟩ := h
      exact .inr ⟨r, hAnswers, rfl⟩
    · cases h
  · obtain ⟨-, rfl⟩ := h
    exact .inl rfl

theorem runExecutable_effect {limit : Nat} {c : Choice}
    {r : Except RegistryError (List IndexingAgreementId)}
    (h : w.runExecutable limit c = some (r, w')) : w' = w := by
  cases c <;> simp only [runExecutable, Option.some.injEq, Prod.mk.injEq, reduceCtorEq] at h
  · exact h.2.symm
  · split at h
    · simp only [Option.some.injEq, Prod.mk.injEq] at h
      exact h.2.symm
    · cases h

theorem exec_effect {o : Op} {c : Choice} {r : Res o} (h : w.exec o c = some (r, w')) :
    Effect w w' o := by
  cases o with
  | select q => exact runSelect_effect h
  | update id u => exact statement_effect h
  | applyReconciliation id applyAccept cancel => exact statement_effect h
  | applyReconciliationBatch items => exact statement_effect h
  | register params replaces => exact statement_effect h
  | deletePendingByNew new => exact statement_effect h
  | deletePending new old => exact statement_effect h
  | updateListenerState cursor timestamp => exact statement_effect h
  | setShortfallActive request active =>
    rcases statement_effect h with rfl | rfl
    · rfl
    · simp only [Effect]
      split <;> rfl
  | offerViaManager id deadline => exact transaction_effect h
  | cancelViaManager id versionHash => exact transaction_effect h
  | emit event => exact send_effect h
  | push job => exact send_effect h
  | pendingByNew new => exact registryRead_effect h
  | getRequest request => exact registryRead_effect h
  | getListenerState => exact registryRead_effect h
  | agreementOnChain id => exact chainRead_effect h
  | latestBlockTimestamp => exact chainRead_effect h
  | getChanged since pinned => exact runQuery_effect h
  | executablePending limit => exact runExecutable_effect h
  | now | stopRequested | stale id | sendProposal id | selectionContext
  | selectIndexers request n | newAgreementId | iterate ids | note n | remember memory =>
    obtain ⟨x, -, hEq⟩ := Option.map_eq_some_iff.mp h
    exact (Prod.mk.inj hEq).2.symm

/-- What an operation does to the row of one agreement. -/
inductive RowEffect (w : World) (id : IndexingAgreementId) :
    Op → Option AgreementRow → Option AgreementRow → Prop
  | same {o : Op} {row : Option AgreementRow} : RowEffect w id o row row
  | update {u : RowUpdate} {row row' : AgreementRow} : u.run w.now row = some row' →
      RowEffect w id (.update id u) (some row) (some row')
  | reconcile {applyAccept : Bool} {cancel : Option CancelKind} {row : AgreementRow} :
      RowEffect w id (.applyReconciliation id applyAccept cancel) (some row)
        (some (Agreements.transition w.now applyAccept cancel row).1)
  | batch {items : List ReconciliationItem} {item : ReconciliationItem} {row : AgreementRow} :
      item ∈ items → item.agreementId = id →
      RowEffect w id (.applyReconciliationBatch items) (some row)
        (some (Agreements.reconcileRow w.now item row))
  | register {params : NewAgreementParams} {replaces : Option IndexingAgreementId} :
      params.agreementId = id →
      RowEffect w id (.register params replaces) none (some (params.row w.now))

/-- The items of a batch are of different agreements. -/
def Distinct : Op → Prop
  | .applyReconciliationBatch items => (items.map (·.agreementId)).Nodup
  | _ => True

theorem row_setRow (id id' : IndexingAgreementId) (row : AgreementRow) :
    (w.setRow id row).row id' = if id' = id then some row else w.row id' :=
  lookup_insert_eq_ite w.agreements row

theorem row_runUpdate (id id' : IndexingAgreementId) (u : RowUpdate) :
    RowEffect w id' (.update id u) (w.row id') ((w.runUpdate id u).1.row id') := by
  unfold runUpdate
  split
  · exact .same
  · rename_i row hRow
    split
    · exact .same
    · rename_i row' hRun
      rw [row_setRow]
      split
      · rename_i hId
        subst hId
        rw [hRow]
        exact .update hRun
      · exact .same

theorem row_runReconciliation (id id' : IndexingAgreementId) (applyAccept : Bool)
    (cancel : Option CancelKind) :
    RowEffect w id' (.applyReconciliation id applyAccept cancel) (w.row id')
      ((w.runReconciliation id applyAccept cancel).1.row id') := by
  unfold runReconciliation
  split
  · rename_i t outcome hOk
    have hRow : t.lookup id' = _ := Agreements.lookup_applyReconciliation hOk
    simp only [row, hRow]
    split
    · rename_i hId
      subst hId
      cases w.agreements.lookup id' with
      | none => exact .same
      | some row => exact .reconcile
    · exact .same
  · exact .same

theorem row_runBatch {items : List ReconciliationItem}
    (hDistinct : (items.map (·.agreementId)).Nodup) (id : IndexingAgreementId) :
    RowEffect w id (.applyReconciliationBatch items) (w.row id) ((w.runBatch items).1.row id) := by
  unfold runBatch
  split
  · rename_i t outcomes hOk
    by_cases hId : id ∈ items.map (·.agreementId)
    · obtain ⟨item, hItem, rfl⟩ := List.mem_map.mp hId
      simp only [row, (Agreements.lookup_batch_item hDistinct hOk hItem).1]
      cases w.agreements.lookup item.agreementId with
      | none => exact .same
      | some row => exact .batch hItem rfl
    · simp only [row, (Agreements.lookup_batch_of_notMem hDistinct hOk hId).1]
      exact .same
  · exact .same

theorem row_of_batch {items : List ReconciliationItem} {t : Agreements} {outcomes : Outcomes}
    (hDistinct : (items.map (·.agreementId)).Nodup)
    (hOk : w.agreements.applyReconciliationBatch w.now items = .ok (t, outcomes))
    (hRows : w'.agreements = t) {item : ReconciliationItem} (hItem : item ∈ items)
    {row : AgreementRow} (hRow : w.row item.agreementId = some row) :
    w'.row item.agreementId = some (Agreements.reconcileRow w.now item row) := by
  have hLookup := (Agreements.lookup_batch_item hDistinct hOk hItem).1
  rw [World.row, hRows, hLookup, show w.agreements.lookup item.agreementId = some row from hRow]
  rfl

theorem row_runRegister (params : NewAgreementParams) (replaces : Option IndexingAgreementId)
    (id : IndexingAgreementId) :
    RowEffect w id (.register params replaces) (w.row id)
      ((w.runRegister params replaces).1.row id) := by
  unfold runRegister
  split
  · exact .same
  · rename_i hTaken
    have hRow : RowEffect w id (.register params replaces) (w.row id)
        ((w.setRow params.agreementId (params.row w.now)).row id) := by
      rw [row_setRow]
      split
      · rename_i hId
        subst hId
        rw [Option.not_isSome_iff_eq_none.mp hTaken]
        exact .register rfl
      · exact .same
    cases replaces <;> exact hRow

theorem row_answered {pinned : Option Nat} {r : ChangedAgreementsResponse}
    {id : IndexingAgreementId} : (w.answered pinned r).row id = w.row id := by
  cases pinned <;> rfl

theorem Effect.row {o : Op} (h : Effect w w' o) (hDistinct : Distinct o)
    (id : IndexingAgreementId) : RowEffect w id o (w.row id) (w'.row id) := by
  cases o with
  | select q =>
    cases q with
    | pendingTerminatedEmission limit | byIds ids =>
      rcases h with rfl | ⟨listed, -, rfl⟩ <;> exact .same
    | pendingAcceptedEmission limit =>
      rw [h]
      exact .same
    | _ =>
      cases h
      exact .same
  | setShortfallActive request active =>
    rw [h]
    exact .same
  | update id' u =>
    rcases h with rfl | rfl
    · exact .same
    · exact row_runUpdate id' id u
  | applyReconciliation id' applyAccept cancel =>
    rcases h with rfl | rfl
    · exact .same
    · exact row_runReconciliation id' id applyAccept cancel
  | applyReconciliationBatch items =>
    rcases h with rfl | rfl
    · exact .same
    · exact row_runBatch hDistinct id
  | register params replaces =>
    rcases h with rfl | rfl
    · exact .same
    · exact row_runRegister params replaces id
  | deletePendingByNew new | deletePending new old | updateListenerState cursor timestamp
  | offerViaManager id' deadline | cancelViaManager id' versionHash | emit event | push job =>
    rcases h with rfl | rfl <;> exact .same
  | getChanged since pinned =>
    rcases h with rfl | ⟨r, -, rfl⟩
    · exact .same
    · rw [row_answered]
      exact .same
  | _ =>
    cases h
    exact .same

/-- Where the status of a row comes from: it was there before, a statement on the row set it, the
listener accepted or ended the row, or the row is new. -/
theorem RowEffect.status {id : IndexingAgreementId} {o : Op} {r : Option AgreementRow}
    {row' : AgreementRow} (h : RowEffect w id o r (some row')) :
    (∃ row, r = some row ∧ row'.status = row.status) ∨
    (∃ u, o = .update id u ∧ u.sets = some row'.status) ∨
    row'.status = .acceptedOnChain ∨ row'.status.isTerminalCancel = true ∨
    (r = none ∧ row'.status = .created) := by
  cases h with
  | same => exact .inl ⟨row', rfl, rfl⟩
  | update hRun =>
    rcases RowUpdate.status_eq hRun with hSame | hSets
    · exact .inl ⟨_, rfl, hSame⟩
    · exact .inr (.inl ⟨_, rfl, hSets⟩)
  | reconcile =>
    rename_i applyAccept cancel row
    rcases Agreements.transition_status w.now applyAccept cancel row with hSame | hAccepted | hEnded
    · exact .inl ⟨_, rfl, hSame⟩
    · exact .inr (.inr (.inl hAccepted))
    · exact .inr (.inr (.inr (.inl hEnded)))
  | batch =>
    rename_i items item row hMem hId
    rw [Agreements.reconcileRow_status]
    rcases Agreements.transition_status w.now item.applyAccept item.cancel row with hSame |
      hAccepted | hEnded
    · exact .inl ⟨_, rfl, hSame⟩
    · exact .inr (.inr (.inl hAccepted))
    · exact .inr (.inr (.inr (.inl hEnded)))
  | register => exact .inr (.inr (.inr (.inr ⟨rfl, rfl⟩)))

theorem RowEffect.written {id : IndexingAgreementId} {o : Op} {r r' : Option AgreementRow}
    (h : RowEffect w id o r r') (hOp : o.registers = false) :
    Option.Rel (RegistryWrites w.now) r r' := by
  cases h with
  | same =>
    cases r with
    | none => exact .none
    | some row => exact .some .refl
  | update hRun => exact .some (.single (.update hRun))
  | reconcile => exact .some (Agreements.writes_transition _ _ _ _)
  | batch => exact .some (Agreements.writes_reconcileRow _ _ _)
  | register => cases hOp

/-- Any operation but a registration writes rows by the registry's statements only, also a batch
with several items of one agreement. -/
theorem Effect.written {o : Op} (h : Effect w w' o) (hOp : o.registers = false) :
    w.agreements.Written w.now w'.agreements := by
  by_cases hDistinct : Distinct o
  · exact fun id => (h.row hDistinct id).written hOp
  · cases o with
    | applyReconciliationBatch items =>
      rcases h with rfl | rfl
      · exact .refl _
      · unfold runBatch
        split
        · exact Agreements.written_batch ‹_›
        · exact .refl _
    | _ => exact absurd trivial hDistinct

theorem Effect.grown {o : Op} (h : Effect w w' o) (hOp : o.registers = false) :
    w.agreements.Grown w'.agreements :=
  (h.written hOp).grown

theorem Effect.source {o : Op} (h : Effect w w' o) {id : IndexingAgreementId}
    {row' : AgreementRow} (hRow' : w'.row id = some row') :
    (∃ row, w.row id = some row ∧ RegistryWrites w.now row row') ∨ (w.row id = none ∧
      ∃ params replaces, o = .register params replaces ∧ params.agreementId = id ∧
        row' = params.row w.now) := by
  cases hOp : o.registers with
  | false => exact .inl ((h.written hOp).origin hRow')
  | true =>
    cases o with
    | register params replaces =>
      have hEffect := h.row trivial id
      rw [hRow'] at hEffect
      generalize w.row id = r at hEffect ⊢
      cases hEffect with
      | same => exact .inl ⟨row', rfl, .refl⟩
      | register hId => exact .inr ⟨rfl, params, replaces, rfl, hId, rfl⟩
    | _ => cases hOp

theorem Effect.origin {o : Op} (h : Effect w w' o) {id : IndexingAgreementId}
    {row' : AgreementRow} (hRow' : w'.row id = some row') :
    (∃ row, w.row id = some row ∧ RowGrows row row') ∨ (w.row id = none ∧
      ∃ params replaces, o = .register params replaces ∧ params.agreementId = id ∧
        row' = params.row w.now) := by
  rcases h.source hRow' with ⟨row, hRow, hWrites⟩ | hNew
  · exact .inl ⟨row, hRow, Agreements.grows_of_writes _ _ hWrites⟩
  · exact .inr hNew

theorem row_of_update_ne {id id' : IndexingAgreementId} {u : RowUpdate}
    (h : Effect w w' (.update id u)) (hNe : id' ≠ id) : w'.row id' = w.row id' := by
  have hEffect := h.row trivial id'
  generalize w.row id' = row at hEffect ⊢
  generalize w'.row id' = row' at hEffect ⊢
  cases hEffect with
  | same => rfl
  | update => exact absurd rfl hNe

/-- Which operation changes which part of the world. -/
structure Changes (w w' : World) (o : Op) : Prop where
  now : w'.now = w.now := by rfl
  chainTime : w'.chainTime = w.chainTime := by rfl
  indexed : w'.indexed = w.indexed := by rfl
  chain : ∀ id, w'.chain id = w.chain id ∨
    (∃ deadline, o = .offerViaManager id deadline ∧ w'.chain id = (w.chain id).offer deadline) ∨
    (∃ hash, o = .cancelViaManager id hash ∧ w'.chain id = (w.chain id).cancel w.chainTime) := by
      exact fun _ => .inl rfl
  pinned : w'.pinned = w.pinned ∨
    (∃ since, o = .getChanged since none ∧ w'.pinned = w.indexed) := by exact .inl rfl
  jobs : w'.jobs = w.jobs ∨ (∃ job, o = .push job ∧ w'.jobs = w.jobs ++ [job]) := by
    exact .inl rfl
  pending : w'.pending = w.pending ∨
    (∃ params old, o = .register params (some old) ∧
      (∀ p, p ∈ w'.pending ↔ p ∈ w.pending ∨ p = (params.agreementId, old)) ∧
      w'.replaced = w.replaced ++ [(params.agreementId, old)]) ∨
    (∃ new, o = .deletePendingByNew new ∧
      w'.pending = w.pending.filter fun p => p.1 ≠ new) ∨
    (∃ new old, o = .deletePending new old ∧
      w'.pending = w.pending.filter fun p => p ≠ (new, old)) := by exact .inl rfl
  replaced : w'.replaced = w.replaced ∨
    (∃ params old, o = .register params (some old) ∧ w.row params.agreementId = none ∧
      w'.row params.agreementId = some (params.row w.now) ∧
      (∀ p, p ∈ w'.pending ↔ p ∈ w.pending ∨ p = (params.agreementId, old)) ∧
      w'.replaced = w.replaced ++ [(params.agreementId, old)]) := by exact .inl rfl
  memory : w'.memory = w.memory ∨ o = .remember w'.memory := by exact .inl rfl
  events : w'.events = w.events ∨ (∃ event, o = .emit event ∧ w'.events = w.events ++ [event]) := by
    exact .inl rfl
  journal : w'.journal = w.journal ∨ (∃ n, o = .note n ∧ w'.journal = w.journal ++ [n]) := by
    exact .inl rfl
  listenerState : (w'.listenerState = w.listenerState ∧ w'.clocks = w.clocks) ∨
    (∃ cursor ts, o = .updateListenerState cursor ts ∧ w' = w.setListenerState cursor ts) := by
      exact .inl ⟨rfl, rfl⟩
  terminatedListed : w'.terminatedListed = w.terminatedListed ∨
    (∃ limit ids, o = .select (.pendingTerminatedEmission limit) ∧
      (AgreementQuery.pendingTerminatedEmission limit).Lists w.now w.requests w.agreements ids ∧
      w'.terminatedListed = w.listed ids) := by exact .inl rfl
  acceptedListed : w'.acceptedListed = w.acceptedListed ∨
    (∃ limit, o = .select (.pendingAcceptedEmission limit)) := by exact .inl rfl
  acceptsApplied : w'.acceptsApplied = w.acceptsApplied ∨
    (∃ items t outcomes, o = .applyReconciliationBatch items ∧
      w.agreements.applyReconciliationBatch w.now items = .ok (t, outcomes) ∧ w'.agreements = t ∧
      w'.acceptsApplied = w.acceptsApplied ++ acceptsOf items) := by exact .inl rfl
  pageListed : w'.pageListed = w.pageListed ∨
    (∃ since pinned, o = .getChanged since pinned ∧ w'.pageListed = []) ∨
    (∃ ids listed, o = .select (.byIds ids) ∧
      (AgreementQuery.byIds ids).Lists w.now w.requests w.agreements listed ∧
      w'.pageListed = w.listed listed) := by exact .inl rfl
  answer : (w'.misread = w.misread ∧ w'.heads = w.heads) ∨
    (∃ since pinned r, o = .getChanged since pinned ∧
      (w.pin pinned).pinned.graph.Answers since r ∧ w' = w.answered pinned r) := by
        exact .inl ⟨rfl, rfl⟩

theorem changes_of_rows {o : Op} (h : w' = { w with agreements := w'.agreements }) :
    Changes w w' o := by
  rw [h]
  exact {}

theorem rows_of_runUpdate (id : IndexingAgreementId) (u : RowUpdate) :
    (w.runUpdate id u).1 = { w with agreements := (w.runUpdate id u).1.agreements } := by
  unfold runUpdate
  repeat' split
  all_goals rfl

theorem rows_of_runReconciliation (id : IndexingAgreementId) (applyAccept : Bool)
    (cancel : Option CancelKind) : (w.runReconciliation id applyAccept cancel).1 =
      { w with agreements := (w.runReconciliation id applyAccept cancel).1.agreements } := by
  unfold runReconciliation
  split <;> rfl

theorem changes_of_runBatch (items : List ReconciliationItem) :
    Changes w (w.runBatch items).1 (.applyReconciliationBatch items) := by
  unfold runBatch
  split
  · rename_i t outcomes hOk
    exact { acceptsApplied := .inr ⟨items, t, outcomes, rfl, hOk, rfl, rfl⟩ }
  · exact {}

theorem changes_of_runRegister (params : NewAgreementParams)
    (replaces : Option IndexingAgreementId) :
    Changes w (w.runRegister params replaces).1 (.register params replaces) := by
  unfold runRegister
  split
  · exact {}
  · rename_i hTaken
    cases replaces with
    | none => exact {}
    | some old =>
      have hPending : ∀ p, p ∈ ((w.setRow params.agreementId (params.row w.now)).addPending
          params.agreementId (some old)).pending ↔
          p ∈ w.pending ∨ p = (params.agreementId, old) := by
        intro p
        by_cases hMem : (params.agreementId, old) ∈ w.pending
        · simp only [addPending, setRow, hMem, if_true]
          exact ⟨.inl, fun h => h.elim id fun hEq => hEq ▸ hMem⟩
        · simp [addPending, setRow, hMem]
      have hRow : ((w.setRow params.agreementId (params.row w.now)).addPending
          params.agreementId (some old)).row params.agreementId = some (params.row w.now) := by
        change (w.setRow params.agreementId (params.row w.now)).row params.agreementId = _
        rw [row_setRow, if_pos rfl]
      exact {
        pending := .inr (.inl ⟨params, old, rfl, hPending, rfl⟩)
        replaced := .inr ⟨params, old, rfl, Option.not_isSome_iff_eq_none.mp hTaken, hRow,
          hPending, rfl⟩ }

theorem chain_setChain (id id' : IndexingAgreementId) (c : OnChain) :
    (w.setChain id c).chain id' = if id' = id then c else w.chain id' :=
  Function.update_apply w.chain id c id'

theorem Effect.changes {o : Op} (h : Effect w w' o) : Changes w w' o := by
  cases o with
  | select q =>
    cases q with
    | pendingTerminatedEmission limit =>
      rcases h with rfl | ⟨ids, hLists, rfl⟩
      · exact {}
      · exact { terminatedListed := .inr ⟨limit, ids, rfl, hLists, rfl⟩ }
    | pendingAcceptedEmission limit =>
      rw [h]
      exact { acceptedListed := .inr ⟨limit, rfl⟩ }
    | byIds ids =>
      rcases h with rfl | ⟨listed, hLists, rfl⟩
      · exact {}
      · exact { pageListed := .inr (.inr ⟨ids, listed, rfl, hLists, rfl⟩) }
    | _ =>
      cases h
      exact {}
  | setShortfallActive request active =>
    rw [h]
    exact {}
  | update id' u =>
    rcases h with rfl | rfl
    · exact {}
    · exact changes_of_rows (rows_of_runUpdate id' u)
  | applyReconciliation id' applyAccept cancel =>
    rcases h with rfl | rfl
    · exact {}
    · exact changes_of_rows (rows_of_runReconciliation id' applyAccept cancel)
  | applyReconciliationBatch items =>
    rcases h with rfl | rfl
    · exact {}
    · exact changes_of_runBatch items
  | register params replaces =>
    rcases h with rfl | rfl
    · exact {}
    · exact changes_of_runRegister params replaces
  | deletePendingByNew new =>
    rcases h with rfl | rfl
    · exact {}
    · exact { pending := .inr (.inr (.inl ⟨new, rfl, rfl⟩)) }
  | deletePending new old =>
    rcases h with rfl | rfl
    · exact {}
    · exact { pending := .inr (.inr (.inr ⟨new, old, rfl, rfl⟩)) }
  | updateListenerState cursor timestamp =>
    rcases h with rfl | rfl
    · exact {}
    · exact { listenerState := .inr ⟨cursor, timestamp, rfl, rfl⟩ }
  | offerViaManager id' deadline =>
    rcases h with rfl | rfl
    · exact {}
    · refine { chain := fun id => ?_ }
      rw [chain_setChain]
      split
      · rename_i hId
        exact .inr (.inl ⟨deadline, by rw [hId], by rw [hId]⟩)
      · exact .inl rfl
  | cancelViaManager id' hash =>
    rcases h with rfl | rfl
    · exact {}
    · refine { chain := fun id => ?_ }
      rw [chain_setChain]
      split
      · rename_i hId
        exact .inr (.inr ⟨hash, by rw [hId], by rw [hId]⟩)
      · exact .inl rfl
  | emit event =>
    rcases h with rfl | rfl
    · exact {}
    · exact { events := .inr ⟨event, rfl, rfl⟩ }
  | push job =>
    rcases h with rfl | rfl
    · exact {}
    · exact { jobs := .inr ⟨job, rfl, rfl⟩ }
  | note n =>
    cases h
    exact { journal := .inr ⟨n, rfl, rfl⟩ }
  | remember memory =>
    cases h
    exact { memory := .inr rfl }
  | getChanged since pinned =>
    rcases h with rfl | ⟨r, hAnswers, rfl⟩
    · exact {}
    · have hPage : (w.answered pinned r).pageListed = [] := rfl
      have hAnswer : ∃ since' pinned' r', Op.getChanged since pinned = .getChanged since' pinned' ∧
          (w.pin pinned').pinned.graph.Answers since' r' ∧
            w.answered pinned r = w.answered pinned' r' := ⟨since, pinned, r, rfl, hAnswers, rfl⟩
      cases pinned with
      | none =>
        exact {
          pinned := .inr ⟨since, rfl, rfl⟩
          pageListed := .inr (.inl ⟨since, none, rfl, hPage⟩)
          answer := .inr hAnswer }
      | some block =>
        exact {
          pageListed := .inr (.inl ⟨since, some block, rfl, hPage⟩)
          answer := .inr hAnswer }
  | _ =>
    cases h
    exact {}

end World

end Dipper
