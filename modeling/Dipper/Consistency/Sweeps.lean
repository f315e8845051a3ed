import Dipper.Consistency.Drain

/-! The sweeps of the chain listener keep to the discipline: every `accepted` event a sweep listed
is out before the next sweep lists its rows, and a row is stamped terminated after the event made
of it as it was listed.  With the drain they make up the poll. -/

namespace Dipper

open World Listener

variable {config : Config} {allow : World → Tag → Op → Choice → Prop} {w w' : World}
  {rows : List (IndexingAgreementId × AgreementRow)}

theorem World.Announced.mono {id : IndexingAgreementId} (h : w.Announced id) (hGrows : w.Grows w') :
    w'.Announced id := by
  obtain ⟨e, he, hId⟩ := h
  exact ⟨e, hGrows.events e he, hId⟩

section Accepted

theorem keeps_emitAccepted (h : ∀ p ∈ rows, (w.chain p.1).WasAccepted) :
    Keeps config allow .chainListener (fun health w' => w'.acceptedListed = w.acceptedListed ∧
      (health ≠ .failed → ∀ p ∈ rows, w'.Announced p.1))
      (emitEach (fun id row => return acceptedEvent id row) .markAcceptedEventEmitted rows) w := by
  induction rows generalizing w with
  | nil => exact listener_ret fun w1 _ _ hQuiet => ⟨hQuiet.acceptedListed, fun _ _ => nofun⟩
  | cons p rows ih =>
    refine keeps_call fun w1 _ hGrows1 hQuiet1 => ⟨⟨.inl rfl, ?_⟩, fun c r w2 hExec _ hGrows2 => ?_⟩
    · exact (hGrows1.chain p.1).accepted (h p (List.mem_cons_self ..))
    have hListed2 : w2.acceptedListed = w.acceptedListed := by
      rcases (exec_effect hExec).changes.acceptedListed with hEq | ⟨limit, hOp⟩
      · exact hEq.trans (hQuiet1 rfl).acceptedListed
      · cases hOp
    cases r with
    | error e =>
      refine listener_ret fun w3 _ _ hQuiet => ⟨hQuiet.acceptedListed.trans hListed2, ?_⟩
      exact fun hHealth => absurd rfl hHealth
    | ok _ =>
      have hSent : w2.Announced p.1 := by
        rw [exec_emit_ok hExec]
        exact ⟨_, List.mem_append_right _ (List.mem_singleton_self _), rfl⟩
      refine keeps_call fun w3 _ hGrows3 hQuiet3 => ⟨fun _ _ => ⟨rfl, hSent.mono hGrows3⟩, ?_⟩
      intro c r w4 hExec4 _ hGrows4
      have hListed4 : w4.acceptedListed = w.acceptedListed := by
        rcases (exec_effect hExec4).changes.acceptedListed with hEq | ⟨limit, hOp⟩
        · exact hEq.trans ((hQuiet3 rfl).acceptedListed.trans hListed2)
        · cases hOp
      have hGrows : w.Grows w4 := ((hGrows1.trans hGrows2).trans hGrows3).trans hGrows4
      have hRest : ∀ q ∈ rows, (w4.chain q.1).WasAccepted := fun q hq =>
        (hGrows.chain q.1).accepted (h q (List.mem_cons_of_mem _ hq))
      refine (keeps_frame (ih hRest)).mono fun health w5 _ hEnd => ?_
      obtain ⟨hGrows5, hListed5, hAll⟩ := hEnd
      refine ⟨hListed5.trans hListed4, fun hHealth q hq => ?_⟩
      rcases List.mem_cons.mp hq with rfl | hq
      · exact ((hSent.mono hGrows3).mono hGrows4).mono hGrows5
      · exact hAll hHealth q hq

theorem keeps_sweepPendingAcceptedEvents :
    Keeps config allow .chainListener
      (fun health w' => health ≠ .failed → ∀ id ∈ w'.acceptedListed, w'.Announced id)
      sweepPendingAcceptedEvents w := by
  refine keeps_call fun w1 hInv1 _ _ => ⟨rfl, fun c r w2 hExec _ hGrows2 => ?_⟩
  have hListed : ∀ id ∈ w2.acceptedListed, ∃ rows, r = .ok rows ∧ id ∈ rows.map (·.1) :=
    fun id hId => exec_select_accepted hExec hId
  have hNone : (∀ p rows, r ≠ .ok (p :: rows)) →
      Keeps config allow .chainListener
        (fun health w' => health ≠ .failed → ∀ id ∈ w'.acceptedListed, w'.Announced id)
        (pure .idle : Act SweepHealth) w2 := by
    refine fun hEmpty => listener_ret fun w3 _ _ hQuiet _ id hId => ?_
    rw [hQuiet.acceptedListed] at hId
    obtain ⟨rows, hOk, hMem⟩ := hListed id hId
    cases rows with
    | nil => cases hMem
    | cons p rows => exact absurd hOk (hEmpty p rows)
  cases r with
  | error e => exact hNone fun _ _ => nofun
  | ok rows =>
    cases rows with
    | nil => exact hNone fun _ _ => nofun
    | cons p rows =>
      have hAccepted : ∀ q ∈ p :: rows, (w2.chain q.1).WasAccepted := by
        intro q hq
        obtain ⟨hRow, hSelects⟩ := exec_select_row hExec hq
        simp only [AgreementQuery.selects, Bool.and_eq_true] at hSelects
        exact (hGrows2.chain q.1).accepted ((hInv1.rows q.1 q.2 hRow).accepted hSelects.1).1
      refine (keeps_emitAccepted hAccepted).mono fun health w3 _ hEnd hHealth id hId => ?_
      rw [hEnd.1] at hId
      obtain ⟨listed, hOk, hMem⟩ := hListed id hId
      obtain rfl := Except.ok.inj hOk
      obtain ⟨q, hq, rfl⟩ := List.mem_map.mp hMem
      exact hEnd.2 hHealth q hq

end Accepted

section Terminated

/-- The rows that a terminated sweep has left: of different agreements, as listed, and not yet
stamped. -/
structure Unsent (rows : List (IndexingAgreementId × AgreementRow)) (w : World) : Prop where
  nodup : (rows.map (·.1)).Nodup
  listed : ∀ p ∈ rows, p ∈ w.terminatedListed
  unstamped : ∀ p ∈ rows, ∃ row, w.row p.1 = some row ∧ row.terminatedEventEmittedAt = none

namespace Unsent

variable {p : IndexingAgreementId × AgreementRow}

theorem quiet (h : Unsent rows w) (hGrows : w.Grows w') (hQuiet : w.Quiet w') :
    Unsent rows w' where
  nodup := h.nodup
  listed := by
    rw [hQuiet.terminatedListed]
    exact h.listed
  unstamped q hq := by
    obtain ⟨row, hRow, hNone⟩ := h.unstamped q hq
    obtain ⟨row', hRow', -⟩ := hGrows.rows q.1 row hRow
    exact ⟨row', hRow', hQuiet.unstamped q.1 row row' hRow hRow' hNone⟩

theorem stamped {u : RowUpdate} (h : Unsent (p :: rows) w) (hEffect : Effect w w' (.update p.1 u)) :
    Unsent rows w' where
  nodup := (List.nodup_cons.mp h.nodup).2
  listed q hq := by
    rcases hEffect.changes.terminatedListed with hEq | ⟨limit, ids, hOp, -⟩
    · rw [hEq]
      exact h.listed q (List.mem_cons_of_mem _ hq)
    · cases hOp
  unstamped q hq := by
    have hNe : q.1 ≠ p.1 := fun hEq =>
      (List.nodup_cons.mp h.nodup).1 (List.mem_map.mpr ⟨q, hq, hEq⟩)
    rw [row_of_update_ne hEffect hNe]
    exact h.unstamped q (List.mem_cons_of_mem _ hq)

theorem emitPre (h : Unsent (p :: rows) w) (remaining : Int) :
    EmitPre w (terminatedEvent config p.1 p.2 remaining) := by
  refine ⟨⟨p.2, h.listed p (List.mem_cons_self ..)⟩, fun row hRow => ?_⟩
  obtain ⟨row', hRow', hNone⟩ := h.unstamped p (List.mem_cons_self ..)
  obtain rfl := Option.some.inj (hRow.symm.trans hRow')
  exact hNone

end Unsent

theorem keeps_terminatedEvent {p : IndexingAgreementId × AgreementRow} (h : Unsent rows w) :
    Keeps config allow .chainListener
      (fun e w' => Unsent rows w' ∧ ∃ remaining, e = terminatedEvent config p.1 p.2 remaining)
      (do
        return terminatedEvent config p.1 p.2
          (← remainingAcceptedIndexingAgreements p.2.deploymentId)) w := by
  refine keeps_bind (m := fun _ w' => Unsent rows w') ?_ fun remaining w1 _ _ h1 =>
    listener_ret fun w2 _ hGrows hQuiet => ⟨h1.quiet hGrows hQuiet, remaining, rfl⟩
  refine keeps_call fun w1 _ hGrows1 hQuiet1 => ⟨trivial, fun c r w2 hExec _ _ => ?_⟩
  obtain rfl : w2 = w1 := exec_effect hExec
  have h2 := h.quiet hGrows1 (hQuiet1 rfl)
  cases r <;> exact listener_ret fun w3 _ hGrows hQuiet => h2.quiet hGrows hQuiet

theorem keeps_emitTerminated (h : Unsent rows w) :
    Keeps config allow .chainListener (fun _ _ => True)
      (emitEach (fun id row => do
        return terminatedEvent config id row
          (← remainingAcceptedIndexingAgreements row.deploymentId))
        .markTerminatedEventEmitted rows) w := by
  induction rows generalizing w with
  | nil => exact keeps_done
  | cons p rows ih =>
    refine keeps_bind (keeps_terminatedEvent (p := p) h) fun e w1 _ _ hEvent => ?_
    obtain ⟨h1, remaining, rfl⟩ := hEvent
    refine keeps_call fun w2 _ hGrows2 hQuiet2 => ⟨⟨.inl rfl, ?_⟩, fun c r w3 hExec _ _ => ?_⟩
    · exact (h1.quiet hGrows2 (hQuiet2 rfl)).emitPre remaining
    cases r with
    | error e => exact keeps_done
    | ok _ =>
      have hSent := exec_emit_ok hExec
      have h3 : Unsent (p :: rows) w3 := by
        have h2 := h1.quiet hGrows2 (hQuiet2 rfl)
        rw [hSent]
        exact ⟨h2.nodup, h2.listed, h2.unstamped⟩
      have hLast : w3.lastTerminated p.1 = some (terminatedEvent config p.1 p.2 remaining) := by
        rw [lastTerminated_append (w := w2) (by rw [hSent])]
        exact if_pos rfl
      refine keeps_call fun w4 _ hGrows4 hQuiet4 => ⟨fun row _ => ?_, fun c r w5 hExec5 _ _ => ?_⟩
      · have h4 := h3.quiet hGrows4 (hQuiet4 rfl)
        refine ⟨rfl, p.2, remaining, h4.listed p (List.mem_cons_self ..), ?_⟩
        rw [(hQuiet4 rfl).lastTerminated]
        exact hLast
      · exact ih ((h3.quiet hGrows4 (hQuiet4 rfl)).stamped (exec_effect hExec5))

theorem keeps_sweepPendingTerminatedEvents (h : ∀ id ∈ w.acceptedListed, w.Announced id) :
    Keeps config allow .chainListener (fun _ _ => True) (sweepPendingTerminatedEvents config) w := by
  refine keeps_call fun w1 hInv1 hGrows1 hQuiet1 => ⟨⟨rfl, fun id hId => ?_⟩, ?_⟩
  · rw [(hQuiet1 rfl).acceptedListed] at hId
    exact (h id hId).mono hGrows1
  intro c r w2 hExec _ _
  cases r with
  | error e => exact keeps_done
  | ok rows =>
    cases rows with
    | nil => exact keeps_done
    | cons p rows =>
      refine keeps_emitTerminated ⟨exec_select_nodup hExec, ?_, fun q hq => ?_⟩
      · rw [exec_select_terminated hExec]
        exact fun _ hq => hq
      · obtain ⟨hRow, hSelects⟩ := exec_select_row hExec hq
        simp only [AgreementQuery.selects, Bool.and_eq_true, Option.isNone_iff_eq_none] at hSelects
        refine ⟨q.2, ?_, hSelects.1.2⟩
        rcases exec_effect hExec with rfl | ⟨ids, -, rfl⟩ <;> exact hRow

end Terminated

section Sweeps

variable {memory : ListenerMemory}

theorem keeps_emitExpired :
    Keeps config allow .chainListener (fun _ _ => True)
      (emitEach (fun id row => return requestExpiredEvent id row) .markExpiredEventEmitted rows)
      w := by
  induction rows generalizing w with
  | nil => exact keeps_done
  | cons p rows ih =>
    refine keeps_free (fun _ => ⟨.inl rfl, trivial⟩) fun r w1 _ _ => ?_
    cases r with
    | error e => exact keeps_done
    | ok _ => exact keeps_free (fun _ _ _ => rfl) fun _ _ _ _ => ih

theorem keeps_sweepPendingExpiredEvents :
    Keeps config allow .chainListener (fun _ _ => True) sweepPendingExpiredEvents w := by
  refine keeps_select (fun _ => rfl) fun r w1 _ _ _ => ?_
  split
  · exact keeps_done
  · exact keeps_done
  · exact keeps_emitExpired

theorem keeps_runEventSweeps :
    Keeps config allow .chainListener (fun _ _ => True) (runEventSweeps config) w := by
  refine keeps_bind keeps_sweepPendingAcceptedEvents fun accepted w1 _ _ hAccepted => ?_
  split
  · exact keeps_done
  · rename_i hHealth
    refine keeps_bind (keeps_sweepPendingTerminatedEvents (hAccepted hHealth))
      fun terminated w2 _ _ _ => ?_
    dsimp only
    split
    · exact keeps_done
    · refine keeps_bind keeps_sweepPendingExpiredEvents fun expired w3 _ _ _ => ?_
      exact keeps_done

theorem keeps_announce (h : MemoryOk memory w) :
    Keeps config allow .chainListener (fun r w' => MemoryOk r w') (announce config memory) w := by
  refine keeps_free (fun _ => trivial) fun now w1 _ hGrows1 => ?_
  split
  · exact keeps_ret fun w2 _ hGrows2 => h.mono (hGrows1.trans hGrows2)
  · refine keeps_bind keeps_runEventSweeps fun health w2 _ hGrows2 _ =>
      keeps_ret fun w3 _ hGrows3 => ?_
    have h3 := h.mono ((hGrows1.trans hGrows2).trans hGrows3)
    cases health <;> exact ⟨h3.checks, h3.clock⟩

theorem keeps_sweepCancellations (hMemory : MemoryOk memory w) :
    Keeps config allow .chainListener (fun r w' => MemoryOk r w')
      (sweepCancellations config memory) w := by
  have hSound := consistency_sound config allow
  unfold sweepCancellations
  dsimp only
  split
  · exact keeps_ret fun w1 _ hGrows => ⟨(hMemory.mono hGrows).checks, (hMemory.mono hGrows).clock⟩
  · refine keeps_bind (m := fun _ _ => True) ?_ fun _ w1 _ hGrows1 _ => ?_
    · refine keeps_free (fun _ => trivial)
        fun (targets : Except RegistryError (List IndexingAgreementId)) w1 _ _ => ?_
      cases targets with
      | error e => exact keeps_done
      | ok targets =>
        refine .forEach hSound (P := fun _ => True) (fun _ _ _ => trivial) (fun new _ w _ => ?_)
          trivial
        exact keeps_bind keeps_executePendingCancellations fun _ _ _ _ _ =>
          keeps_done
    · refine keeps_bind (m := fun _ _ => True) ?_ fun _ w2 _ hGrows2 _ =>
        keeps_ret fun w3 _ hGrows3 => ?_
      · refine keeps_listAgreements (fun _ => trivial)
          (fun e w2 _ _ => keeps_done) fun rows w2 _ _ hListed => ?_
        refine (Concurrent.Discipline.Keeps.forEach hSound
          (P := fun w' => ∀ a ∈ Registry.agreements rows, w'.Knows a)
          (fun _ hRely h a ha => (h a ha).mono hRely.1) (fun a ha w' h => ?_)
          fun a ha => hListed.knows ha).mono fun _ _ _ _ => trivial
        refine keeps_bind (keeps_startCancel (h a ha)) fun _ w3 _ hGrows3 _ => ?_
        exact keeps_ret fun w4 _ hGrows4 b hb => (h b hb).mono (hGrows3.trans hGrows4)
      · have h3 := hMemory.mono ((hGrows1.trans hGrows2).trans hGrows3)
        exact ⟨h3.checks, h3.clock⟩

theorem keeps_remember (h : MemoryOk memory w) :
    Keeps config allow .chainListener (fun _ _ => True) (remember memory) w :=
  keeps_call (k := pure) fun _ _ hGrows _ => ⟨⟨rfl, (h.mono hGrows).checks, (h.mono hGrows).clock⟩,
    fun _ _ _ _ _ _ => keeps_done⟩

theorem keeps_poll (h : MemoryOk memory w) :
    Keeps config allow .chainListener (fun _ _ => True) (poll config memory) w := by
  refine keeps_bind (keeps_drainOnce h) fun r w1 _ _ h1 => ?_
  obtain ⟨memory1, drained⟩ := r
  cases drained with
  | error e => exact keeps_remember h1
  | ok outcome =>
    dsimp only
    split
    · exact keeps_bind (keeps_remember h1) fun _ _ _ _ _ => keeps_done
    · refine keeps_bind (keeps_announce h1) fun memory2 w2 _ _ h2 => ?_
      refine keeps_bind (keeps_sweepCancellations h2) fun memory3 w3 _ _ h3 => ?_
      exact keeps_remember h3

end Sweeps

end Dipper
