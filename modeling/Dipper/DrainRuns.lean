import Dipper.CursorMoves
import Dipper.Listener.Polling
import Dipper.Registering
import Dipper.Results

/-! What a run of a drain does, function by function: the writes the preparation and the batch of a
page commit, the pages a drain reads, and how it moves the cursor by them. -/

namespace Dipper

open Concurrent World

namespace World.Steady

variable {w w' w'' : World}

theorem refl (w : World) : w.Steady w := ⟨rfl, rfl, rfl⟩

theorem trans (h : w.Steady w') (h' : w'.Steady w'') : w.Steady w'' :=
  ⟨h'.indexed.trans h.indexed, h'.pinned.trans h.pinned, h'.listenerState.trans h.listenerState⟩

end World.Steady

theorem steady_of_exec {w w' : World} {o : Op} {c : Choice} {r : Res o}
    (h : w.exec o c = some (r, w')) (ho : o.ofReconciling = true) : w.Steady w' := by
  have hChanges := (exec_effect h).changes
  refine ⟨hChanges.indexed, ?_, ?_⟩
  · rcases hChanges.pinned with hSame | ⟨since, rfl, -⟩
    · exact hSame
    · cases ho
  · rcases hChanges.listenerState with hSame | ⟨cursor, ts, rfl, -⟩
    · exact hSame.1
    · cases ho

namespace Listener

section Records

variable {tr tr' : List (Action World Op)} (hSub : tr ⊆ tr')

include hSub

theorem Noted.mono {n : Note} (h : Noted tr n) : Noted tr' n := by
  obtain ⟨e, he, hOp⟩ := h
  exact ⟨e, hSub he, hOp⟩

theorem ReadClock.mono {now : Nat} (h : ReadClock tr now) : ReadClock tr' now := by
  obtain ⟨e, he, hOp⟩ := h
  exact ⟨e, hSub he, hOp⟩

theorem UpdateCommitted.mono {id : IndexingAgreementId} {u : RowUpdate} (h : UpdateCommitted tr id u) :
    UpdateCommitted tr' id u := by
  obtain ⟨e, he, hOp⟩ := h
  exact ⟨e, hSub he, hOp⟩

theorem BatchCommitted.mono {item : ReconciliationItem} (h : BatchCommitted tr item) :
    BatchCommitted tr' item := by
  obtain ⟨e, he, hOp⟩ := h
  exact ⟨e, hSub he, hOp⟩

theorem Listed.mono {id : IndexingAgreementId} {agreement : Option IndexingAgreement}
    (h : Listed tr id agreement) : Listed tr' id agreement := by
  obtain ⟨e, he, hOp⟩ := h
  exact ⟨e, hSub he, hOp⟩

theorem CheckQueuedFor.mono {change : IndexingAgreementId × Nat} (h : CheckQueuedFor tr change) :
    CheckQueuedFor tr' change := by
  obtain ⟨e, he, hPushed⟩ := h
  exact ⟨e, hSub he, hPushed⟩

theorem AuditsUpdated.mono {x : AgreementStateSnapshot} {a : IndexingAgreement}
    (h : AuditsUpdated tr x a) : AuditsUpdated tr' x a :=
  ⟨fun h1 h2 h3 => (h.1 h1 h2 h3).mono hSub, fun h1 h2 h3 h4 h5 => (h.2 h1 h2 h3 h4 h5).mono hSub⟩

theorem WritesCommitted.mono {checked checked' : IndexingAgreementId × Nat → Prop}
    {x : AgreementStateSnapshot} (h : WritesCommitted tr checked x)
    (hChecked : ∀ change, checked change → checked' change) : WritesCommitted tr' checked' x := by
  obtain ⟨agreement, hListed, hWrites⟩ := h
  refine ⟨agreement, hListed.mono hSub, fun a ha => ?_⟩
  obtain ⟨hAudits, hCheck, hItem⟩ := hWrites a ha
  exact ⟨hAudits.mono hSub, fun hEnded => hChecked _ (hCheck hEnded),
    fun hAsks => (hItem hAsks).mono hSub⟩

end Records

/-- Each change with a check in `queued'` had one before, or it was queued on the way. -/
def QueuesIn (tr : List (Action World Op)) (queued queued' : List (IndexingAgreementId × Nat)) :
    Prop :=
  ∀ change ∈ queued', change ∈ queued ∨ CheckQueuedFor tr change

namespace QueuesIn

variable {tr tr' : List (Action World Op)} {queued queued' queued'' : List (IndexingAgreementId × Nat)}

theorem refl : QueuesIn tr queued queued := fun _ h => .inl h

theorem mono (h : QueuesIn tr queued queued') (hSub : tr ⊆ tr') : QueuesIn tr' queued queued' :=
  fun change hMem => (h change hMem).imp_right fun hQueued => hQueued.mono hSub

theorem trans (h : QueuesIn tr queued queued') (h' : QueuesIn tr queued' queued'') :
    QueuesIn tr queued queued'' := by
  intro change hMem
  rcases h' change hMem with hBefore | hQueued
  · exact h change hBefore
  · exact .inr hQueued

end QueuesIn

/-- A snapshot is prepared: it has made its writes, its chain check is queued, and the item it asks
of the batch is there. -/
def IsPrepared (tr : List (Action World Op)) (work : PageWork) (x : AgreementStateSnapshot)
    (agreement : Option IndexingAgreement) : Prop :=
  ∀ a ∈ agreement, AuditsUpdated tr x a ∧ (endedButAccepted x a = true → x.change ∈ work.liveChecks) ∧
    (appliesAccept x a = true ∨ (cancelKind x a).isSome = true →
      ⟨reconciliationItem x a, a⟩ ∈ work.prepared)

theorem IsPrepared.mono {tr tr' : List (Action World Op)} {work work' : PageWork}
    {x : AgreementStateSnapshot} {agreement : Option IndexingAgreement}
    (h : IsPrepared tr work x agreement) (hSub : tr ⊆ tr') (hPrepared : work.prepared ⊆ work'.prepared)
    (hChecks : work.liveChecks ⊆ work'.liveChecks) : IsPrepared tr' work' x agreement := by
  intro a ha
  obtain ⟨hAudits, hCheck, hItem⟩ := h a ha
  exact ⟨hAudits.mono hSub, fun hEnded => hChecks (hCheck hEnded),
    fun hAsks => hPrepared (hItem hAsks)⟩

namespace PageWork

variable {work : PageWork} {id : IndexingAgreementId}
  {prepared : Except Unit (Option PreparedReconciliation)}
  {liveChecks : List (IndexingAgreementId × Nat)}

theorem mem_prepared_add {p : PreparedReconciliation}
    (h : p ∈ work.prepared ∨ prepared = .ok (some p)) :
    p ∈ (work.add id prepared liveChecks).prepared := by
  rcases h with h | rfl
  · unfold PageWork.add
    split <;> simp [h]
  · simp [PageWork.add]

theorem subset_unapplied_add : work.unapplied ⊆ (work.add id prepared liveChecks).unapplied := by
  intro id' h
  unfold PageWork.add
  split <;> simp [h]

theorem mem_unapplied_add {e : Unit} (h : prepared = .error e) :
    id ∈ (work.add id prepared liveChecks).unapplied := by
  simp [PageWork.add, h]

theorem liveChecks_add : (work.add id prepared liveChecks).liveChecks = liveChecks := by
  unfold PageWork.add
  split <;> rfl

end PageWork

section Runs

variable {sem : World → (o : Op) → Res o → World → Prop} {w w' : World}
  {tr : List (Action World Op)} {config : Config} {x : AgreementStateSnapshot}
  {a : IndexingAgreement}
  (hSem : ∀ w o r w', sem w o r w' → ∃ c, w.exec o c = some (r, w'))

include hSem

theorem steady_of_runs {α : Type} {p : Act α} {out : Option α} (hp : Reconciling p)
    (run : p.Runs sem World.Steady w tr out w') : w.Steady w' := by
  refine run.reached (fun _ _ _ h h' => h.trans h') (fun _ _ h => h) fun e he => ?_
  obtain ⟨r, hPerforms⟩ := run.performed e he
  obtain ⟨c, hExec⟩ := hSem _ _ _ _ hPerforms
  exact steady_of_exec hExec (run.onlyOps hp e he)

theorem updated_of_runs {id : IndexingAgreementId} {u : RowUpdate} {y : Updated}
    (run : (Registry.update id u).Runs sem World.Steady w tr (some (.ok y)) w') :
    UpdateCommitted tr id u := by
  obtain ⟨w1, w2, -, hPerforms, -, rfl⟩ := Prog.runs_perform run
  obtain ⟨c, hExec⟩ := hSem _ _ _ _ hPerforms
  exact ⟨_, List.mem_singleton.mpr rfl, rfl, y, statement_ok hExec⟩

theorem runs_recordAcceptOfCancelling
    (run : (recordAcceptOfCancelling x a).Runs sem World.Steady w tr (some (.ok ())) w')
    (hStatus : a.status = .cancelling) (hAccepted : x.state.reachedAccepted = true)
    (hAt : x.acceptedAt ≠ 0) :
    UpdateCommitted tr a.id (.recordAcceptedAudit x.acceptedAt x.acceptedTx) := by
  unfold recordAcceptOfCancelling at run
  rw [if_neg (by simp [hStatus, hAccepted, hAt])] at run
  obtain ⟨r, tr1, tr2, w1, run1, run2, rfl⟩ := Prog.runs_bind World.Steady.refl run
  cases r with
  | error e =>
    obtain ⟨hEq, -⟩ := Prog.runs_pure run2
    cases hEq
  | ok y => exact (updated_of_runs hSem run1).mono (List.subset_append_left _ _)

theorem runs_decideReconciliation {prep : Option PreparedReconciliation}
    (run : (decideReconciliation x a).Runs sem World.Steady w tr (some (.ok prep)) w') :
    (appliesAccept x a = true ∨ (cancelKind x a).isSome = true →
      prep = some ⟨reconciliationItem x a, a⟩) ∧
    (appliesAccept x a = false → cancelKind x a = none → a.status.isTerminalCancel = true →
      x.state.isCanceled = true → x.acceptedAt ≠ 0 →
      UpdateCommitted tr a.id (.recordAcceptAndCancelAudit x.acceptedAt x.acceptedTx x.canceledAt
        (Address.text x.canceledBy) (some x.canceledTx))) := by
  unfold decideReconciliation at run
  split at run
  · rename_i hAsks
    obtain ⟨hEq, -⟩ := Prog.runs_pure run
    refine ⟨fun _ => Except.ok.inj hEq, fun hAccept hCancel => ?_⟩
    simp [hAccept, hCancel] at hAsks
  · rename_i hAsks
    refine ⟨fun h => absurd (Bool.or_eq_true_iff.mpr h) hAsks, fun _ _ hEnded hCanceled hAt => ?_⟩
    rw [if_pos (by simp [hEnded, hCanceled])] at run
    obtain ⟨r, tr1, tr2, w1, run1, run2, rfl⟩ := Prog.runs_bind World.Steady.refl run
    cases r with
    | error e =>
      obtain ⟨hEq, -⟩ := Prog.runs_pure run2
      cases hEq
    | ok _ =>
      unfold recordAcceptAndCancelFromChain at run1
      rw [if_neg hAt] at run1
      obtain ⟨r, tr3, tr4, w2, run3, run4, rfl⟩ := Prog.runs_bind World.Steady.refl run1
      cases r with
      | error e =>
        obtain ⟨hEq, -⟩ := Prog.runs_pure run4
        cases hEq
      | ok y =>
        refine (updated_of_runs hSem run3).mono fun e he => ?_
        simp [he]

theorem runs_checkEndedButAccepted {queued queued' : List (IndexingAgreementId × Nat)}
    (hRow : x ∈ w.indexed.graph.rows)
    (run : (checkEndedButAccepted x a queued).Runs sem World.Steady w tr (some (.ok queued')) w') :
    queued ⊆ queued' ∧ QueuesIn tr queued queued' ∧
      (endedButAccepted x a = true → x.change ∈ queued') := by
  unfold checkEndedButAccepted at run
  split at run
  · unfold queueLiveCheck at run
    dsimp only at run
    split at run
    · rename_i hQueued
      obtain ⟨hEq, -⟩ := Prog.runs_pure run
      obtain rfl := Except.ok.inj hEq
      exact ⟨List.Subset.refl _, .refl, fun _ => hQueued⟩
    · obtain ⟨r, tr1, tr2, w1, run1, run2, rfl⟩ := Prog.runs_bind World.Steady.refl run
      cases r with
      | error e =>
        obtain ⟨hEq, -⟩ := Prog.runs_pure run2
        cases hEq
      | ok u =>
        obtain ⟨hEq, -⟩ := Prog.runs_pure run2
        obtain rfl := Except.ok.inj hEq
        obtain ⟨w2, w3, hSteady, hPerforms, -, rfl⟩ := Prog.runs_perform run1
        obtain ⟨c, hExec⟩ := hSem _ _ _ _ hPerforms
        refine ⟨List.subset_cons_self .., fun change hMem => ?_, fun _ => List.mem_cons_self⟩
        rcases List.mem_cons.mp hMem with rfl | hMem
        · refine .inr ⟨_, List.mem_append_left _ (List.mem_singleton.mpr rfl), x, ?_, rfl, rfl,
            send_ok hExec⟩
          rw [hSteady.indexed]
          exact hRow
        · exact .inl hMem
  · rename_i hNot
    obtain ⟨hEq, -⟩ := Prog.runs_pure run
    obtain rfl := Except.ok.inj hEq
    exact ⟨List.Subset.refl _, .refl, fun hEnded => absurd hEnded hNot⟩

/-- Preparing a snapshot without error has made the writes it asks for beside the batch's and
queued its chain check, and gives the item it asks of the batch. -/
theorem runs_prepareReconciliation {agreement : Option IndexingAgreement}
    {queued queued' : List (IndexingAgreementId × Nat)}
    {result : Except Unit (Option PreparedReconciliation)} (hRow : x ∈ w.indexed.graph.rows)
    (run : (prepareReconciliation x agreement queued).Runs sem World.Steady w tr
      (some (result, queued')) w') :
    queued ⊆ queued' ∧ QueuesIn tr queued queued' ∧ ∀ a ∈ agreement, ∀ prep, result = .ok prep →
      AuditsUpdated tr x a ∧ (endedButAccepted x a = true → x.change ∈ queued') ∧
      (appliesAccept x a = true ∨ (cancelKind x a).isSome = true →
        prep = some ⟨reconciliationItem x a, a⟩) := by
  cases agreement with
  | none =>
    obtain ⟨hEq, -⟩ := Prog.runs_pure run
    obtain ⟨-, rfl⟩ := Prod.mk.inj hEq
    exact ⟨List.Subset.refl _, .refl, nofun⟩
  | some a =>
    obtain ⟨r, tr1, tr2, w1, run1, run2, rfl⟩ := Prog.runs_bind World.Steady.refl run
    cases r with
    | error e =>
      obtain ⟨hEq, -⟩ := Prog.runs_pure run2
      obtain ⟨rfl, rfl⟩ := Prod.mk.inj hEq
      exact ⟨List.Subset.refl _, .refl, fun _ _ _ hOk => nomatch hOk⟩
    | ok queued1 =>
      obtain ⟨hKept, hQueues, hCheck⟩ := runs_checkEndedButAccepted hSem hRow run1
      have hQueues' := hQueues.mono (List.subset_append_left tr1 tr2)
      obtain ⟨r, tr3, tr4, w2, run3, run4, rfl⟩ := Prog.runs_bind World.Steady.refl run2
      cases r with
      | error e =>
        obtain ⟨hEq, -⟩ := Prog.runs_pure run4
        obtain ⟨rfl, rfl⟩ := Prod.mk.inj hEq
        exact ⟨hKept, hQueues', fun _ _ _ hOk => nomatch hOk⟩
      | ok _ =>
        obtain ⟨r, tr5, tr6, w3, run5, run6, rfl⟩ := Prog.runs_bind World.Steady.refl run4
        obtain ⟨hEq, -⟩ := Prog.runs_pure run6
        obtain ⟨rfl, rfl⟩ := Prod.mk.inj hEq
        refine ⟨hKept, hQueues', ?_⟩
        rintro a' ha' prep rfl
        obtain rfl := Option.some.inj ha'
        obtain ⟨hItem, hEnded⟩ := runs_decideReconciliation hSem run5
        refine ⟨⟨fun h1 h2 h3 => ?_, fun h1 h2 h3 h4 h5 => ?_⟩, hCheck, hItem⟩
        · refine (runs_recordAcceptOfCancelling hSem run3 h1 h2 h3).mono fun e he => ?_
          simp [he]
        · refine (hEnded h1 h2 h3 h4 h5).mono fun e he => ?_
          simp [he]

theorem runs_prepareEach {snapshots : List AgreementStateSnapshot}
    {agreements : List IndexingAgreement} {work work' : PageWork} {stopped : Bool}
    (hRows : ∀ x ∈ snapshots, x ∈ w.indexed.graph.rows)
    (hNodup : (snapshots.map (·.agreementId)).Nodup)
    (run : (prepareEach snapshots agreements work).Runs sem World.Steady w tr
      (some (stopped, work')) w') :
    work.liveChecks ⊆ work'.liveChecks ∧ QueuesIn tr work.liveChecks work'.liveChecks ∧
      (stopped = false → work.prepared ⊆ work'.prepared ∧ work.unapplied ⊆ work'.unapplied ∧
        ∀ x ∈ snapshots, x.agreementId ∈ work'.unapplied ∨
          IsPrepared tr work' x (agreements.find? fun a => a.id = x.agreementId)) := by
  induction snapshots generalizing w tr agreements work with
  | nil =>
    obtain ⟨hEq, -⟩ := Prog.runs_pure run
    obtain ⟨rfl, rfl⟩ := Prod.mk.inj hEq
    exact ⟨List.Subset.refl _, .refl, fun _ => ⟨fun _ h => h, fun _ h => h, nofun⟩⟩
  | cons first rest ih =>
    obtain ⟨hFresh, hRest⟩ := List.nodup_cons.mp hNodup
    obtain ⟨stop, tr1, tr2, w1, run1, run2, rfl⟩ := Prog.runs_bind World.Steady.refl run
    cases stop with
    | true =>
      obtain ⟨hEq, -⟩ := Prog.runs_pure run2
      obtain ⟨rfl, rfl⟩ := Prod.mk.inj hEq
      exact ⟨List.Subset.refl _, .refl, nofun⟩
    | false =>
      obtain ⟨⟨prepared, queued⟩, tr3, tr4, w2, run3, run4, rfl⟩ :=
        Prog.runs_bind World.Steady.refl run2
      have hSteady1 : w.Steady w1 := steady_of_runs hSem (.perform rfl) run1
      have hSteady2 := hSteady1.trans (steady_of_runs hSem minor_prepareReconciliation.reconciling run3)
      have hFirst : first ∈ w1.indexed.graph.rows := by
        rw [hSteady1.indexed]
        exact hRows first (by simp)
      have hLater : ∀ x ∈ rest, x ∈ w2.indexed.graph.rows := by
        intro x hx
        rw [hSteady2.indexed]
        exact hRows x (by simp [hx])
      obtain ⟨hKept, hQueues, hPrep⟩ := runs_prepareReconciliation hSem hFirst run3
      obtain ⟨hKept', hQueues', hEnd⟩ := ih hLater hRest run4
      rw [PageWork.liveChecks_add] at hKept' hQueues'
      have hSub3 : tr3 ⊆ tr1 ++ (tr3 ++ tr4) := fun e he => by simp [he]
      have hSub4 : tr4 ⊆ tr1 ++ (tr3 ++ tr4) := fun e he => by simp [he]
      refine ⟨List.Subset.trans hKept hKept', (hQueues.mono hSub3).trans (hQueues'.mono hSub4),
        fun hStopped => ?_⟩
      obtain ⟨hPrepared, hUnapplied, hEach⟩ := hEnd hStopped
      refine ⟨fun p hp => hPrepared (PageWork.mem_prepared_add (.inl hp)),
        fun id hid => hUnapplied (PageWork.subset_unapplied_add hid), fun x hx => ?_⟩
      rcases List.mem_cons.mp hx with rfl | hx
      · cases prepared with
        | error e => exact .inl (hUnapplied (PageWork.mem_unapplied_add rfl))
        | ok prep =>
          refine .inr fun a ha => ?_
          obtain ⟨hAudits, hCheck, hItem⟩ := hPrep a ha prep rfl
          refine ⟨hAudits.mono hSub3, fun hEnded => hKept' (hCheck hEnded),
            fun hAsks => hPrepared (PageWork.mem_prepared_add (.inr ?_))⟩
          rw [hItem hAsks]
      · refine (hEach x hx).imp_right fun h => ?_
        -- The agreement of an earlier snapshot has been taken out; those of later ones are there.
        have hNe : x.agreementId ≠ first.agreementId := by
          intro hEq
          exact hFresh (List.mem_map.mpr ⟨x, hx, hEq⟩)
        have hFind : (agreements.filter fun a => a.id ≠ first.agreementId).find?
            (fun a => a.id = x.agreementId) = agreements.find? fun a => a.id = x.agreementId := by
          rw [List.find?_filter]
          congr 1
          funext a
          by_cases hId : a.id = x.agreementId
          · simp [hId, hNe]
          · simp [hId]
        rw [hFind] at h
        exact h.mono hSub4 (List.Subset.refl _) (List.Subset.refl _)

theorem runs_applyPage {work work' : PageWork} {outcomes : Outcomes}
    (run : (applyPage work).Runs sem World.Steady w tr (some (work', outcomes)) w') :
    work'.liveChecks = work.liveChecks ∧ work.unapplied ⊆ work'.unapplied ∧
      ∀ p ∈ work.prepared, p.item.agreementId ∈ work'.unapplied ∨ BatchCommitted tr p.item := by
  unfold applyPage at run
  dsimp only at run
  split at run
  · rename_i hEmpty
    obtain ⟨hEq, -⟩ := Prog.runs_pure run
    obtain rfl := (Prod.mk.inj hEq).1
    have hNil : work'.prepared = [] := by simpa using hEmpty
    exact ⟨rfl, fun _ h => h, by simp [hNil]⟩
  · obtain ⟨r, tr1, tr2, w1, run1, run2, rfl⟩ := Prog.runs_bind World.Steady.refl run
    cases r with
    | error e =>
      obtain ⟨hEq, -⟩ := Prog.runs_pure run2
      obtain rfl := (Prod.mk.inj hEq).1
      refine ⟨rfl, fun id h => by simp [h], fun p hp => .inl ?_⟩
      simp only [List.mem_append, List.mem_map, List.map_map]
      exact .inr ⟨p, hp, rfl⟩
    | ok outcomes' =>
      obtain ⟨hEq, -⟩ := Prog.runs_pure run2
      obtain rfl := (Prod.mk.inj hEq).1
      obtain ⟨w2, w3, -, hPerforms, -, rfl⟩ := Prog.runs_perform run1
      obtain ⟨c, hExec⟩ := hSem _ _ _ _ hPerforms
      exact ⟨rfl, fun _ h => h, fun p hp => .inr ⟨_, List.mem_append_left _
        (List.mem_singleton.mpr rfl), _, rfl, List.mem_map.mpr ⟨p, hp, rfl⟩, outcomes',
        statement_ok hExec⟩⟩

theorem runs_preparePage {snapshots : List AgreementStateSnapshot}
    {liveChecks : List (IndexingAgreementId × Nat)} {work : PageWork} {stopped : Bool}
    (hRows : ∀ x ∈ snapshots, x ∈ w.indexed.graph.rows)
    (hNodup : (snapshots.map (·.agreementId)).Nodup)
    (run : (preparePage snapshots liveChecks).Runs sem World.Steady w tr
      (some (stopped, work)) w') :
    QueuesIn tr liveChecks work.liveChecks ∧ (stopped = false →
      ∀ x ∈ snapshots, x.agreementId ∈ work.unapplied ∨ ∃ agreement,
        Listed tr x.agreementId agreement ∧ IsPrepared tr work x agreement ∧
          ∀ a ∈ agreement, a.id = x.agreementId) := by
  obtain ⟨r, tr1, tr2, w1, run1, run2, rfl⟩ := Prog.runs_bind World.Steady.refl run
  have hSteady : w.Steady w1 := steady_of_runs hSem (minor_listAgreements _).reconciling run1
  have hRows' : ∀ x ∈ snapshots, x ∈ w1.indexed.graph.rows := by
    rw [hSteady.indexed]
    exact hRows
  cases r with
  | error e =>
    obtain ⟨-, hQueues, hEnd⟩ := runs_prepareEach hSem hRows' hNodup run2
    refine ⟨hQueues.mono (List.subset_append_right _ _), fun hStopped x hx => .inl ?_⟩
    exact (hEnd hStopped).2.1 (List.mem_map.mpr ⟨x, hx, rfl⟩)
  | ok agreements =>
    obtain ⟨-, hQueues, hEnd⟩ := runs_prepareEach hSem hRows' hNodup run2
    refine ⟨hQueues.mono (List.subset_append_right _ _), fun hStopped x hx => ?_⟩
    have hId : x.agreementId ∈ snapshots.map (·.agreementId) := List.mem_map.mpr ⟨x, hx, rfl⟩
    obtain ⟨r, tr3, tr4, w2, run3, run4, rfl⟩ := Prog.runs_bind World.Steady.refl run1
    cases r with
    | error e =>
      obtain ⟨hEq, -⟩ := Prog.runs_pure run4
      cases hEq
    | ok rows =>
      obtain ⟨hEq, -⟩ := Prog.runs_pure run4
      obtain rfl := Except.ok.inj hEq
      obtain ⟨w3, w4, -, hPerforms, -, rfl⟩ := Prog.runs_perform run3
      obtain ⟨c, hExec⟩ := hSem _ _ _ _ hPerforms
      refine ((hEnd hStopped).2.2 x hx).imp_right fun hPrepared => ⟨_, ⟨⟨w3, _, w4⟩, by simp, _, rows,
        c, rfl, hId, hExec, rfl⟩, hPrepared.mono (List.subset_append_right _ _)
        (List.Subset.refl _) (List.Subset.refl _), fun a ha => ?_⟩
      have hFound := List.find?_some (Option.mem_def.mp ha)
      exact of_decide_eq_true hFound

/-- A page that is not stopped is dealt with: what of it is not left unapplied has made its
writes. -/
theorem runs_reconcilePage {since : Cursor} {snapshots : List AgreementStateSnapshot}
    {liveChecks : List (IndexingAgreementId × Nat)} {report : PageReport}
    (hRows : ∀ x ∈ snapshots, x ∈ w.indexed.graph.rows)
    (hNodup : (snapshots.map (·.agreementId)).Nodup)
    (run : (reconcilePage config since snapshots liveChecks).Runs sem World.Steady w tr
      (some report) w') :
    QueuesIn tr liveChecks report.liveChecks ∧ (report.stopped = false →
      Noted tr (.pageDone since snapshots report.unapplied) ∧
        ∀ x ∈ snapshots, x.agreementId ∉ report.unapplied →
          WritesCommitted tr (· ∈ report.liveChecks) x) := by
  obtain ⟨⟨stopped, work⟩, tr1, tr2, w1, run1, run2, rfl⟩ := Prog.runs_bind World.Steady.refl run
  obtain ⟨hQueues, hPrepares⟩ := runs_preparePage hSem hRows hNodup run1
  have hQueues' := hQueues.mono (List.subset_append_left tr1 tr2)
  cases stopped with
  | true =>
    obtain ⟨rfl, -⟩ := Prog.runs_pure run2
    exact ⟨hQueues', nofun⟩
  | false =>
    obtain ⟨⟨work', outcomes⟩, tr3, tr4, w2, run3, run4, rfl⟩ :=
      Prog.runs_bind World.Steady.refl run2
    obtain ⟨u, tr5, tr6, w3, run5, run6, rfl⟩ := Prog.runs_bind World.Steady.refl run4
    obtain ⟨⟨processed, errors⟩, tr7, tr8, w4, -, run8, rfl⟩ :=
      Prog.runs_bind World.Steady.refl run6
    obtain ⟨rfl, -⟩ := Prog.runs_pure run8
    have hSub1 : tr1 ⊆ tr1 ++ (tr3 ++ (tr5 ++ (tr7 ++ tr8))) := fun e he => by simp [he]
    have hSub3 : tr3 ⊆ tr1 ++ (tr3 ++ (tr5 ++ (tr7 ++ tr8))) := fun e he => by simp [he]
    obtain ⟨w5, w6, -, -, -, rfl⟩ := Prog.runs_perform run5
    obtain ⟨hChecks, hUnapplied, hItems⟩ := runs_applyPage hSem run3
    dsimp only
    rw [hChecks]
    refine ⟨hQueues', fun _ => ⟨⟨⟨w5, _, w6⟩, by simp, rfl⟩, fun x hx hApplied => ?_⟩⟩
    rcases hPrepares rfl x hx with hFailed | ⟨agreement, hListed, hPrepared, hIds⟩
    · exact absurd (hUnapplied hFailed) hApplied
    · refine ⟨agreement, hListed.mono hSub1, fun a ha => ?_⟩
      obtain ⟨hAudits, hCheck, hItem⟩ := hPrepared a ha
      refine ⟨hAudits.mono hSub1, hCheck, fun hAsks => ?_⟩
      rcases hItems _ (hItem hAsks) with hFailed | hCommitted
      · refine absurd ?_ hApplied
        rw [← hIds a ha]
        exact hFailed
      · exact hCommitted.mono hSub3

end Runs

section Commit

variable {sem : World → (o : Op) → Res o → World → Prop} {w w' : World}
  {tr : List (Action World Op)} {config : Config}
  (hSem : ∀ w o r w', sem w o r w' → ∃ c, w.exec o c = some (r, w'))

/-- The cursor the registry has is the one it had, or a later one up to `c'`. -/
def PersistedUpTo (c c' : Cursor) (w w' : World) : Prop :=
  w'.listenerState = w.listenerState ∨
    ∃ cursor ts, w'.listenerState = some (cursor, ts) ∧ c ≤ cursor ∧ cursor ≤ c'

/-- What the end of a page does with the cursor: `page` tells how it was decided. -/
structure Commits (tr : List (Action World Op)) (w w' : World) (memory memory' : ListenerMemory)
    (page : PageRecord) (advanced : Bool) : Prop where
  clock : ReadClock tr page.now
  verdict : page.verdict memory.cursor memory.cursorHold = (memory'.cursorHold, page.skips)
  advances : page.advances memory.cursor = advanced
  cursor : memory'.cursor = if advanced then page.next else memory.cursor
  head : memory'.lastSubgraphHead = memory.lastSubgraphHead
  checks : memory'.liveChecks = memory.liveChecks
  skipped : page.skips = true →
    ∃ block count ids, Noted tr (.changesSkipped block count ids page.unapplied)
  indexed : w'.indexed = w.indexed
  pinned : w'.pinned = w.pinned
  persisted : PersistedUpTo memory'.cursor memory'.cursor w w'

include hSem

theorem runs_persistState {changed : Bool} {cursor : Cursor} {ratchet persisted out : Option Nat}
    (run : (persistState changed cursor ratchet persisted).Runs sem World.Steady w tr
      (some out) w') :
    w'.indexed = w.indexed ∧ w'.pinned = w.pinned ∧ PersistedUpTo cursor cursor w w' := by
  unfold persistState at run
  split at run
  · obtain ⟨r, tr1, tr2, w1, run1, run2, rfl⟩ := Prog.runs_bind World.Steady.refl run
    obtain ⟨w2, w3, hSteady, hPerforms, hSteady', -⟩ := Prog.runs_perform run1
    have hLast : w1.Steady w' := by
      cases r with
      | ok _ => exact (Prog.runs_pure run2).2.2
      | error _ => exact (Prog.runs_pure run2).2.2
    obtain ⟨c, hExec⟩ := hSem _ _ _ _ hPerforms
    have hChanges := (exec_effect hExec).changes
    have hPinned : w3.pinned = w2.pinned := by
      rcases hChanges.pinned with hSame | ⟨since, hOp, -⟩
      · exact hSame
      · cases hOp
    have hEnd := hSteady'.trans hLast
    refine ⟨(hEnd.indexed.trans hChanges.indexed).trans hSteady.indexed,
      (hEnd.pinned.trans hPinned).trans hSteady.pinned, ?_⟩
    rcases hChanges.listenerState with hSame | ⟨cursor', ts, hOp, rfl⟩
    · exact .inl ((hEnd.listenerState.trans hSame.1).trans hSteady.listenerState)
    · cases hOp
      exact .inr ⟨cursor, ratchet, hEnd.listenerState, le_refl _, le_refl _⟩
  · obtain ⟨-, -, hSteady⟩ := Prog.runs_pure run
    exact ⟨hSteady.indexed, hSteady.pinned, .inl hSteady.listenerState⟩

theorem runs_commitPage {memory memory' : ListenerMemory}
    {unapplied : List IndexingAgreementId} {newCursor : Cursor} {newTs : Option Nat}
    {advanced : Bool} (since : Cursor) (snapshots : List AgreementStateSnapshot)
    (run : (commitPage config memory unapplied newCursor newTs).Runs sem World.Steady w tr
      (some (memory', advanced)) w') :
    ∃ now skips, Commits tr w w' memory memory'
      ⟨since, snapshots, unapplied, newCursor, now, skips⟩ advanced := by
  obtain ⟨now, tr1, tr2, w1, run1, run2, rfl⟩ := Prog.runs_bind World.Steady.refl run
  obtain ⟨ratchet, tr3, tr4, w2, run3, run4, rfl⟩ := Prog.runs_bind World.Steady.refl run2
  obtain ⟨u, tr5, tr6, w3, run5, run6, rfl⟩ := Prog.runs_bind World.Steady.refl run4
  obtain ⟨persisted, tr7, tr8, w4, run7, run8, rfl⟩ := Prog.runs_bind World.Steady.refl run6
  obtain ⟨hEq, -, hLast⟩ := Prog.runs_pure run8
  obtain ⟨rfl, rfl⟩ := Prod.mk.inj hEq
  obtain ⟨w5, w6, hSteady1, hPerforms, hSteady2, rfl⟩ := Prog.runs_perform run1
  obtain ⟨c, hExec⟩ := hSem _ _ _ _ hPerforms
  have hNow : w5.now = now := by
    obtain ⟨_, -, hPair⟩ := Option.map_eq_some_iff.mp hExec
    exact (Prod.mk.inj hPair).1
  have hBefore : w.Steady w3 :=
    ((((hSteady1.trans (steady_of_exec hExec rfl)).trans hSteady2).trans
      (steady_of_runs hSem minor_ratchetTimestamp.reconciling run3)).trans
      (steady_of_runs hSem minor_raiseHoldAlert.reconciling run5))
  obtain ⟨hIndexed, hPinned, hPersisted⟩ := runs_persistState hSem run7
  refine ⟨now, (holdAfter memory unapplied now).2, ?_⟩
  constructor
  · exact ⟨_, List.mem_append_left _ (List.mem_singleton.mpr rfl), rfl, hNow⟩
  · rfl
  · rfl
  · rfl
  · rfl
  · rfl
  · intro hSkip
    change (holdAfter memory unapplied now).2 = true at hSkip
    unfold raiseHoldAlert at run5
    rw [if_pos hSkip] at run5
    have hNoted : ∃ block count ids, Noted tr5 (.changesSkipped block count ids unapplied) := by
      obtain ⟨w7, w8, -, -, -, rfl⟩ := Prog.runs_perform run5
      exact ⟨_, _, _, _, List.mem_singleton.mpr rfl, rfl⟩
    obtain ⟨block, count, ids, hNoted⟩ := hNoted
    exact ⟨block, count, ids, hNoted.mono fun e he => by simp [he]⟩
  · exact (hLast.indexed.trans hIndexed).trans hBefore.indexed
  · exact (hLast.pinned.trans hPinned).trans hBefore.pinned
  · rcases hPersisted with hSame | ⟨cursor, ts, hSet, hLe, hLe'⟩
    · exact .inl ((hLast.listenerState.trans hSame).trans hBefore.listenerState)
    · exact .inr ⟨cursor, ts, hLast.listenerState.trans hSet, hLe, hLe'⟩

end Commit

/-- A program that does not write the listener's state. -/
def LeavesState {α : Type} (p : Act α) : Prop :=
  p.OnlyOps fun o => ∀ cursor ts, o ≠ .updateListenerState cursor ts

theorem leavesState_of_reconciling {α : Type} {p : Act α} (hp : Reconciling p) :
    LeavesState p := by
  refine Prog.OnlyOps.mono (fun o ho => ?_) hp
  rintro cursor ts rfl
  cases ho

theorem leavesState_getChangedAgreements {config : Config} {since : Cursor}
    {pinned : Option Nat} : LeavesState (getChangedAgreements config since pinned) := by
  refine .ask nofun fun r => ?_
  split
  · exact .pure _
  · split
    · exact .pure _
    · refine .bind (leavesState_of_reconciling minor_checkSkew.reconciling) fun r => ?_
      split <;> exact .pure _

section Drain

variable {sem : World → (o : Op) → Res o → World → Prop} {w w' : World}
  {tr : List (Action World Op)} {config : Config} {g : Subgraph} {since : Cursor}
  {pinned : Option Nat} {ok : Subgraph → ChangedAgreementsResponse → Prop}
  (hSem : ∀ w o r w', sem w o r w' → ∃ c, w.exec o c = some (r, w'))
  (hOk : ∀ w since pinned r w', sem w (.getChanged since pinned) (.ok r) w' →
    ok (w.pin pinned).pinned.graph r)

include hSem

theorem kept_of_getChangedAgreements {r : Except ChainEventError ChangedAgreementsResult}
    (run : (getChangedAgreements config since pinned).Runs sem World.Steady w tr (some r) w') :
    w'.indexed = w.indexed ∧ w'.listenerState = w.listenerState := by
  refine run.reached (R := fun w w' => w'.indexed = w.indexed ∧ w'.listenerState = w.listenerState)
    ?_ ?_ ?_
  · intro w1 w2 w3 h h'
    exact ⟨h'.1.trans h.1, h'.2.trans h.2⟩
  · intro w1 w2 h
    exact ⟨h.indexed, h.listenerState⟩
  · intro e he
    obtain ⟨r, hPerforms⟩ := run.performed e he
    obtain ⟨c, hExec⟩ := hSem _ _ _ _ hPerforms
    have hChanges := (exec_effect hExec).changes
    refine ⟨hChanges.indexed, ?_⟩
    rcases hChanges.listenerState with hSame | ⟨cursor, ts, hOp, -⟩
    · exact hSame.1
    · exact absurd hOp (run.onlyOps leavesState_getChangedAgreements e he cursor ts)

variable (ok) in
include hOk in
theorem runs_getChangedAgreements {result : ChangedAgreementsResult}
    (hGraph : (w.pin pinned).pinned.graph = g)
    (run : (getChangedAgreements config since pinned).Runs sem World.Steady w tr
      (some (.ok result)) w') :
    (∃ r, ok g r ∧ g.Answers since r ∧ readPage since r = .ok result) ∧
      result.latestBlock = g.head ∧ w'.pinned.graph = g := by
  obtain ⟨r, tr1, tr2, w1, run1, run2, rfl⟩ := Prog.runs_bind World.Steady.refl run
  cases r with
  | error e =>
    obtain ⟨hEq, -⟩ := Prog.runs_pure run2
    cases hEq
  | ok r =>
    dsimp only at run2
    split at run2
    · obtain ⟨hEq, -⟩ := Prog.runs_pure run2
      cases hEq
    · obtain ⟨skew, tr3, tr4, w2, run3, run4, rfl⟩ := Prog.runs_bind World.Steady.refl run2
      cases skew with
      | error e =>
        obtain ⟨hEq, -⟩ := Prog.runs_pure run4
        cases hEq
      | ok _ =>
        obtain ⟨hRead, -, hSteady4⟩ := Prog.runs_pure run4
        obtain ⟨w3, w5, hSteady1, hPerforms, hSteady2, -⟩ := Prog.runs_perform run1
        obtain ⟨c, hExec⟩ := hSem _ _ _ _ hPerforms
        obtain ⟨rfl, hAnswers⟩ := exec_getChanged_ok hExec
        have hPinned : (w3.pin pinned).pinned.graph = g := by
          rw [← hGraph]
          cases pinned with
          | none => exact congrArg Indexed.graph hSteady1.indexed
          | some block => exact congrArg Indexed.graph hSteady1.pinned
        have hOk' := hOk _ _ _ _ _ hPerforms
        have hSteady := (hSteady2.trans
          (steady_of_runs hSem minor_checkSkew.reconciling run3)).trans hSteady4
        change (w3.pin pinned).pinned.graph.Answers since r at hAnswers
        rw [hPinned] at hAnswers hOk'
        refine ⟨⟨r, hOk', hAnswers, hRead.symm⟩, ?_, ?_⟩
        · obtain ⟨page, -, -, hBlock, -⟩ := readPage_cases hRead.symm
          exact hBlock.trans hAnswers.1
        · rw [hSteady.pinned]
          exact hPinned

end Drain

section Pages

variable {sem : World → (o : Op) → Res o → World → Prop} {config : Config} {g : Subgraph}
  {ok : ChangedAgreementsResponse → Prop}

/-- The drain has dealt with the page as its record says, with the chain checks that were `queued`
before it. -/
structure Deals (tr : List (Action World Op)) (queued : List (IndexingAgreementId × Nat))
    (page : PageRecord) : Prop where
  done : Noted tr (.pageDone page.since page.snapshots page.unapplied)
  clock : ReadClock tr page.now
  applied : ∀ s ∈ page.snapshots, s.agreementId ∉ page.unapplied →
    WritesCommitted tr (fun change => change ∈ queued ∨ CheckQueuedFor tr change) s
  skipped : page.skips = true →
    ∃ block count ids, Noted tr (.changesSkipped block count ids page.unapplied)

theorem Deals.mono {tr tr' : List (Action World Op)} {queued queued' : List (IndexingAgreementId × Nat)}
    {page : PageRecord} (h : Deals tr queued page) (hSub : tr ⊆ tr')
    (hQueues : QueuesIn tr' queued' queued) : Deals tr' queued' page where
  done := h.done.mono hSub
  clock := h.clock.mono hSub
  applied s hs hApplied := (h.applied s hs hApplied).mono hSub fun change hChecked => by
    rcases hChecked with hBefore | hQueued
    · exact hQueues change hBefore
    · exact .inr (hQueued.mono hSub)
  skipped hSkips := by
    obtain ⟨block, count, ids, hNoted⟩ := h.skipped hSkips
    exact ⟨block, count, ids, hNoted.mono hSub⟩

/-- What the pages of a drain from `since` on have done. -/
structure DrainsBy (ok : ChangedAgreementsResponse → Prop) (g : Subgraph) (since : Cursor)
    (tr : List (Action World Op)) (w w' : World) (memory memory' : ListenerMemory)
    (pages : List PageRecord) : Prop where
  drained : Drained ok g since memory.cursor memory.cursorHold pages memory'.cursor
    memory'.cursorHold
  deals : ∀ page ∈ pages, Deals tr memory.liveChecks page
  queues : QueuesIn tr memory.liveChecks memory'.liveChecks
  indexed : w'.indexed = w.indexed

theorem PersistedUpTo.trans {c1 c2 c3 : Cursor} {w w1 w2 : World} (h : PersistedUpTo c1 c2 w w1)
    (h' : PersistedUpTo c2 c3 w1 w2) (hLe : c1 ≤ c2) (hLe' : c2 ≤ c3) :
    PersistedUpTo c1 c3 w w2 := by
  rcases h' with hSame | ⟨cursor, ts, hSet, hFrom, hTo⟩
  · rcases h with hSame' | ⟨cursor, ts, hSet, hFrom, hTo⟩
    · exact .inl (hSame.trans hSame')
    · exact .inr ⟨cursor, ts, hSame.trans hSet, hFrom, hTo.trans hLe'⟩
  · exact .inr ⟨cursor, ts, hSet, hLe.trans hFrom, hTo⟩

theorem DrainsBy.none {since : Cursor} {tr : List (Action World Op)} {w w' : World}
    {memory memory' : ListenerMemory} (hCursor : memory'.cursor = memory.cursor)
    (hHold : memory'.cursorHold = memory.cursorHold)
    (hQueues : QueuesIn tr memory.liveChecks memory'.liveChecks)
    (hIndexed : w'.indexed = w.indexed) : DrainsBy ok g since tr w w' memory memory' [] where
  drained := by
    rw [hCursor, hHold]
    exact .ends
  deals := nofun
  queues := hQueues
  indexed := hIndexed

theorem DrainsBy.held {since : Cursor} {tr : List (Action World Op)} {w w' : World}
    {memory memory' : ListenerMemory} {page : PageRecord} (hReads : page.Reads ok g since)
    (hVerdict : page.verdict memory.cursor memory.cursorHold = (memory'.cursorHold, page.skips))
    (hAdvances : page.advances memory.cursor = false) (hCursor : memory'.cursor = memory.cursor)
    (hDeals : Deals tr memory.liveChecks page)
    (hQueues : QueuesIn tr memory.liveChecks memory'.liveChecks) (hIndexed : w'.indexed = w.indexed) :
    DrainsBy ok g since tr w w' memory memory' [page] where
  drained := by
    rw [hCursor]
    exact .held hReads hVerdict hAdvances
  deals page' hMem := by
    obtain rfl := List.mem_singleton.mp hMem
    exact hDeals
  queues := hQueues
  indexed := hIndexed

theorem DrainsBy.cons {since : Cursor} {tr1 tr2 : List (Action World Op)} {w w1 w' : World}
    {memory memory1 memory' : ListenerMemory} {page : PageRecord} {pages : List PageRecord}
    (h : DrainsBy ok g page.next tr2 w1 w' memory1 memory' pages)
    (hReads : page.Reads ok g since)
    (hVerdict : page.verdict memory.cursor memory.cursorHold = (memory1.cursorHold, page.skips))
    (hAdvances : page.advances memory.cursor = true) (hCursor : memory1.cursor = page.next)
    (hDeals : Deals tr1 memory.liveChecks page)
    (hQueues : QueuesIn tr1 memory.liveChecks memory1.liveChecks)
    (hIndexed : w1.indexed = w.indexed) :
    DrainsBy ok g since (tr1 ++ tr2) w w' memory memory' (page :: pages) where
  drained := by
    refine .moves hReads hVerdict hAdvances ?_
    have hRest := h.drained
    rw [hCursor] at hRest
    exact hRest
  deals := by
    intro page' hMem
    rcases List.mem_cons.mp hMem with rfl | hMem
    · exact hDeals.mono (List.subset_append_left _ _) .refl
    · exact (h.deals page' hMem).mono (List.subset_append_right _ _)
        (hQueues.mono (List.subset_append_left _ _))
  queues := (hQueues.mono (List.subset_append_left _ _)).trans
    (h.queues.mono (List.subset_append_right _ _))
  indexed := h.indexed.trans hIndexed

/-- No page of a drain moves the cursor back, and the registry gets none but those it moves to; by
induction on how many pages may still be read. -/
theorem forward_of_drainPages
    (hSem : ∀ w o r w', sem w o r w' → ∃ c, w.exec o c = some (r, w'))
    (remaining : Nat) {since : Cursor} {pinned : Option Nat} {memory memory' : ListenerMemory}
    {outcome : DrainOutcome} {result : Except Unit DrainOutcome} {w w' : World}
    {tr : List (Action World Op)}
    (run : (drainPages config remaining since pinned memory outcome).Runs sem World.Steady w tr
      (some (memory', result)) w') :
    memory.cursor ≤ memory'.cursor ∧ PersistedUpTo memory.cursor memory'.cursor w w' := by
  induction remaining generalizing since pinned memory outcome w tr with
  | zero =>
    obtain ⟨hEq, -, hSteady⟩ := Prog.runs_pure run
    rw [(Prod.mk.inj hEq).1]
    exact ⟨le_refl _, .inl hSteady.listenerState⟩
  | succ remaining ih =>
    obtain ⟨r, tr1, tr2, w1, run1, run2, rfl⟩ := Prog.runs_bind World.Steady.refl run
    have hState1 := (kept_of_getChangedAgreements hSem run1).2
    cases r with
    | error e =>
      obtain ⟨hEq, -, hSteady⟩ := Prog.runs_pure run2
      rw [(Prod.mk.inj hEq).1]
      exact ⟨le_refl _, .inl (hSteady.listenerState.trans hState1)⟩
    | ok page =>
      dsimp only at run2
      generalize hMemory : (if pinned.isNone = true then
        noteHead { memory with consecutiveFailures := 0 } page.latestBlock
        else { memory with consecutiveFailures := 0 }) = memory1 at run2
      have hCursor1 : memory1.cursor = memory.cursor := by
        rw [← hMemory]
        split <;> rfl
      obtain ⟨report, tr3, tr4, w2, run3, run4, rfl⟩ := Prog.runs_bind World.Steady.refl run2
      have hState2 := (steady_of_runs hSem reconciling_reconcilePage run3).listenerState.trans hState1
      rw [← hCursor1]
      split at run4
      · obtain ⟨hEq, -, hSteady⟩ := Prog.runs_pure run4
        rw [(Prod.mk.inj hEq).1]
        exact ⟨le_refl _, .inl (hSteady.listenerState.trans hState2)⟩
      · obtain ⟨⟨memory2, advanced⟩, tr5, tr6, w3, run5, run6, rfl⟩ :=
          Prog.runs_bind World.Steady.refl run4
        obtain ⟨now, skips, hCommits⟩ := runs_commitPage hSem since page.snapshots run5
        have hLe : memory1.cursor ≤ memory2.cursor := by
          rw [hCommits.cursor]
          split
          · rename_i hAdvanced
            exact le_of_lt (PageRecord.lt_of_advances (hCommits.advances.trans hAdvanced))
          · exact le_refl _
        have hPage : PersistedUpTo memory1.cursor memory2.cursor w w3 := by
          rcases hCommits.persisted with hSame | ⟨cursor, ts, hSet, hFrom, hTo⟩
          · exact .inl (hSame.trans hState2)
          · exact .inr ⟨cursor, ts, hSet, hLe.trans hFrom, hTo⟩
        have hRest : memory2.cursor ≤ memory'.cursor ∧
            PersistedUpTo memory2.cursor memory'.cursor w3 w' := by
          split at run6
          · obtain ⟨hEq, -, hSteady⟩ := Prog.runs_pure run6
            rw [(Prod.mk.inj hEq).1]
            exact ⟨le_refl _, .inl hSteady.listenerState⟩
          · exact ih run6
        exact ⟨hLe.trans hRest.1, hPage.trans hRest.2 hLe hRest.1⟩

/-- The pages a drain reads, by induction on how many it may still read. -/
theorem runs_drainPages
    (hSem : ∀ w o r w', sem w o r w' → ∃ c, w.exec o c = some (r, w'))
    (hOk : ∀ w since pinned r w', sem w (.getChanged since pinned) (.ok r) w' →
      ok r ∧ (w.pin pinned).pinned.graph.Exact r)
    (remaining : Nat) {since : Cursor} {pinned : Option Nat} {memory memory' : ListenerMemory}
    {outcome : DrainOutcome} {result : Except Unit DrainOutcome} {w w' : World}
    {tr : List (Action World Op)} (hGraph : (w.pin pinned).pinned.graph = g)
    (hIndexed : w.indexed.graph = g)
    (run : (drainPages config remaining since pinned memory outcome).Runs sem World.Steady w tr
      (some (memory', result)) w') :
    ∃ pages, DrainsBy ok g since tr w w' memory memory' pages ∧
      (pinned = none → pages ≠ [] → memory'.lastSubgraphHead = g.head) ∧
      (pinned.isSome = true → memory'.lastSubgraphHead = memory.lastSubgraphHead) := by
  induction remaining generalizing since pinned memory outcome w tr with
  | zero =>
    obtain ⟨hEq, -, hSteady⟩ := Prog.runs_pure run
    obtain ⟨rfl, -⟩ := Prod.mk.inj hEq
    exact ⟨[], .none rfl rfl .refl hSteady.indexed, fun _ h => absurd rfl h, fun _ => rfl⟩
  | succ remaining ih =>
    obtain ⟨r, tr1, tr2, w1, run1, run2, rfl⟩ := Prog.runs_bind World.Steady.refl run
    have hIndexed1 := (kept_of_getChangedAgreements hSem run1).1
    cases r with
    | error e =>
      obtain ⟨hEq, -, hSteady⟩ := Prog.runs_pure run2
      obtain ⟨rfl, -⟩ := Prod.mk.inj hEq
      exact ⟨[], .none rfl rfl .refl (hSteady.indexed.trans hIndexed1), fun _ h => absurd rfl h,
        fun _ => rfl⟩
    | ok page =>
      obtain ⟨⟨r, hr, hAnswers, hRead⟩, hHead, hGraph1⟩ :=
        runs_getChangedAgreements (fun g r => ok r ∧ g.Exact r) hSem hOk hGraph run1
      have hRows : ∀ x ∈ page.snapshots, x ∈ w1.indexed.graph.rows := by
        intro x hx
        rw [hIndexed1, hIndexed]
        exact hr.2 x ((sublist_of_readPage hRead).mem hx)
      dsimp only at run2
      generalize hMemory : (if pinned.isNone = true then
        noteHead { memory with consecutiveFailures := 0 } page.latestBlock
        else { memory with consecutiveFailures := 0 }) = memory1 at run2
      have hCursor1 : memory1.cursor = memory.cursor := by
        rw [← hMemory]
        split <;> rfl
      have hHold1 : memory1.cursorHold = memory.cursorHold := by
        rw [← hMemory]
        split <;> rfl
      have hChecks1 : memory1.liveChecks = memory.liveChecks := by
        rw [← hMemory]
        split <;> rfl
      have hNone1 : pinned = none → memory1.lastSubgraphHead = g.head := by
        rintro rfl
        rw [← hMemory]
        exact hHead
      have hSome1 : pinned.isSome = true → memory1.lastSubgraphHead = memory.lastSubgraphHead := by
        intro hSome
        rw [← hMemory, if_neg (by simpa [Option.isNone_iff_eq_none, Option.isSome_iff_ne_none]
          using hSome)]
      obtain ⟨report, tr3, tr4, w2, run3, run4, rfl⟩ := Prog.runs_bind World.Steady.refl run2
      have hSteady3 := steady_of_runs hSem reconciling_reconcilePage run3
      obtain ⟨hQueues, hDealt⟩ := runs_reconcilePage hSem hRows (hAnswers.nodup hRead) run3
      rw [hChecks1] at hQueues
      split at run4
      · obtain ⟨hEq, -, hSteady⟩ := Prog.runs_pure run4
        obtain ⟨rfl, -⟩ := Prod.mk.inj hEq
        have hEnd := hSteady3.trans hSteady
        exact ⟨[], .none hCursor1 hHold1 (hQueues.mono fun e he => by simp [he])
          (hEnd.indexed.trans hIndexed1), fun _ h => absurd rfl h, hSome1⟩
      · rename_i hStopped
        obtain ⟨⟨memory2, advanced⟩, tr5, tr6, w3, run5, run6, rfl⟩ :=
          Prog.runs_bind World.Steady.refl run4
        obtain ⟨hDone, hApplied⟩ := hDealt (Bool.eq_false_iff.mpr hStopped)
        obtain ⟨now, skips, hCommits⟩ := runs_commitPage hSem since page.snapshots run5
        have hVerdict := hCommits.verdict
        have hAdvances := hCommits.advances
        have hCursor2 := hCommits.cursor
        dsimp only at hVerdict hAdvances hCursor2
        rw [hCursor1, hHold1] at hVerdict
        rw [hCursor1] at hAdvances hCursor2
        have hReads : PageRecord.Reads ok g since
            ⟨since, page.snapshots, report.unapplied, page.cursor, now, skips⟩ :=
          ⟨rfl, r, page, hr, hAnswers, hRead, rfl, rfl⟩
        have hSub3 : tr3 ⊆ tr1 ++ (tr3 ++ tr5) := fun e he => by simp [he]
        have hSub5 : tr5 ⊆ tr1 ++ (tr3 ++ tr5) := fun e he => by simp [he]
        have hDeals : Deals (tr1 ++ (tr3 ++ tr5)) memory.liveChecks
            ⟨since, page.snapshots, report.unapplied, page.cursor, now, skips⟩ := by
          refine ⟨hDone.mono hSub3, hCommits.clock.mono hSub5, fun x hx hNot => ?_, fun hSkips => ?_⟩
          · exact (hApplied x hx hNot).mono hSub3 (hQueues.mono hSub3)
          · obtain ⟨block, count, ids, hNoted⟩ := hCommits.skipped hSkips
            exact ⟨block, count, ids, hNoted.mono hSub5⟩
        have hIndexed3 : w3.indexed = w.indexed :=
          (hCommits.indexed.trans hSteady3.indexed).trans hIndexed1
        have hHead2 : memory2.lastSubgraphHead = memory1.lastSubgraphHead := hCommits.head
        have hQueues2 : QueuesIn (tr1 ++ (tr3 ++ tr5)) memory.liveChecks memory2.liveChecks := by
          rw [hCommits.checks]
          exact hQueues.mono hSub3
        have hTrace : tr1 ++ (tr3 ++ (tr5 ++ tr6)) = (tr1 ++ (tr3 ++ tr5)) ++ tr6 := by simp
        rw [hTrace]
        cases advanced with
        | false =>
          obtain ⟨hEq, rfl, hSteady⟩ := Prog.runs_pure run6
          obtain ⟨rfl, -⟩ := Prod.mk.inj hEq
          rw [List.append_nil]
          refine ⟨[_], .held hReads hVerdict hAdvances hCursor2 hDeals hQueues2
            (hSteady.indexed.trans hIndexed3), fun hPinned _ => ?_, fun hPinned => ?_⟩
          · rw [hHead2, hNone1 hPinned]
          · rw [hHead2, hSome1 hPinned]
        | true =>
          have hCons : ∀ pages, DrainsBy ok g page.cursor tr6 w3 w' memory2 memory' pages →
              DrainsBy ok g since (tr1 ++ (tr3 ++ tr5) ++ tr6) w w' memory memory'
                (⟨since, page.snapshots, report.unapplied, page.cursor, now, skips⟩ :: pages) :=
            fun pages h => h.cons hReads hVerdict hAdvances hCursor2 hDeals hQueues2 hIndexed3
          split at run6
          · obtain ⟨hEq, rfl, hSteady⟩ := Prog.runs_pure run6
            obtain ⟨rfl, -⟩ := Prod.mk.inj hEq
            refine ⟨[_], hCons [] (.none rfl rfl .refl hSteady.indexed),
              fun hPinned _ => ?_, fun hPinned => ?_⟩
            · rw [hHead2, hNone1 hPinned]
            · rw [hHead2, hSome1 hPinned]
          · have hGraph3 : (w3.pin (pinned.or (some page.latestBlock))).pinned.graph = g := by
              have hPinned : w3.pinned = w1.pinned := hCommits.pinned.trans hSteady3.pinned
              cases pinned <;> exact (congrArg Indexed.graph hPinned).trans hGraph1
            have hGraph4 : w3.indexed.graph = g := by rw [hIndexed3, hIndexed]
            obtain ⟨pages, hRest, -, hSome⟩ := ih hGraph3 hGraph4 run6
            have hSame : memory'.lastSubgraphHead = memory2.lastSubgraphHead := by
              apply hSome
              cases pinned <;> rfl
            refine ⟨_ :: pages, hCons pages hRest, fun hPinned _ => ?_, fun hPinned => ?_⟩
            · rw [hSame, hHead2, hNone1 hPinned]
            · rw [hSame, hHead2, hSome1 hPinned]

end Pages

end Listener

end Dipper
