import Dipper.Consistency.Runs

/-! The order of an agreement's events.  An expiry is not announced and then contradicted as long
as what is announced has lapsed on the chain, and an end is announced after the accept as long as
the accepted sweep has listed, or stamped before, whatever the terminated sweep goes on to list. -/

namespace Dipper

open World

variable {config : Config} {w w' : World} {o : Op} {t : Tag} {choice : Choice}
  {now chainTime : Nat} {requests : Requests}

section Expired

def Event.expiredId : Event → Option IndexingAgreementId
  | .requestExpired id .. => some id
  | _ => none

/-- A later event announces as accepted what this one announced as expired. -/
def Event.contradictedBy (e later : Event) : Bool :=
  e.expiredId.any fun id => later.acceptedId = some id

instance (w : World) (id : IndexingAgreementId) : Decidable (w.Lapsed id) :=
  decidable_of_iff (¬ (w.chain id).WasAccepted ∧
    (w.row id).any fun row => row.terms.deadline < w.chainTime) (by
      simp [World.Lapsed, Option.any_eq_true])

/-- An expiry is announced only of an offer that has lapsed on the chain. -/
def AnnouncesLapsed (w : World) (_ : Tag) (o : Op) (_ : Choice) : Prop :=
  match o with
  | .emit (.requestExpired id ..) => w.Lapsed id
  | _ => True

instance (w : World) (t : Tag) (o : Op) (choice : Choice) :
    Decidable (AnnouncesLapsed w t o choice) := by
  unfold AnnouncesLapsed
  split <;> infer_instance

/-- Every expiry announced stands: its offer has lapsed, and no later event contradicts it. -/
structure World.ExpiriesStand (w : World) : Prop where
  lapsed : ∀ e ∈ w.events, ∀ id ∈ e.expiredId, w.Lapsed id
  order : w.events.Pairwise fun e later => e.contradictedBy later = false

theorem wasAccepted_of_emitPre {e : Event} {id : IndexingAgreementId} (hPre : EmitPre w e)
    (hId : e.acceptedId = some id) : (w.chain id).WasAccepted := by
  cases e with
  | accepted id' =>
    obtain rfl := Option.some.inj hId
    exact hPre
  | _ => cases hId

theorem World.ExpiriesStand.step (h : w.ExpiriesStand) (hw : w.Consistent)
    (hPerformed : Performed config t w o w') (hAllow : AnnouncesLapsed w t o choice) :
    w'.ExpiriesStand := by
  have hGrows := hPerformed.grows hw
  rcases hPerformed.effect.changes.events with hEq | ⟨event, rfl, hEq⟩
  · refine ⟨fun e he id hId => ?_, ?_⟩
    · rw [hEq] at he
      exact hGrows.lapsed id (h.lapsed e he id hId)
    · rw [hEq]
      exact h.order
  · refine ⟨fun e he id hId => hGrows.lapsed id ?_, ?_⟩
    · rw [hEq] at he
      rcases List.mem_append.mp he with he | he
      · exact h.lapsed e he id hId
      · obtain rfl := List.mem_singleton.mp he
        cases e with
        | requestExpired id' =>
          obtain rfl := Option.some.inj hId
          exact hAllow
        | _ => cases hId
    · rw [hEq, List.pairwise_append]
      refine ⟨h.order, List.pairwise_singleton _ _, fun e he later hLater => ?_⟩
      obtain rfl := List.mem_singleton.mp hLater
      rw [Bool.eq_false_iff, Event.contradictedBy, Ne, Option.any_eq_true]
      rintro ⟨id, hId, hAccepted⟩
      have hSeen := wasAccepted_of_emitPre hPerformed.pre.2 (of_decide_eq_true hAccepted)
      exact (h.lapsed e he id hId).1 hSeen

/-- When only lapsed offers are announced as expired, no `accepted` event follows the expiry of
its agreement. -/
theorem expiry_never_contradicted {c : (services config AnnouncesLapsed).Config}
    (hRun : (services config AnnouncesLapsed).Run (fresh now chainTime requests) c) :
    c.1.events.Pairwise fun e later => e.contradictedBy later = false := by
  have hStand : c.1.ExpiriesStand := by
    refine invariant_of_run ⟨fun e he => absurd he List.not_mem_nil, .nil⟩ ?_ ?_ hRun
    · intro w t o choice r w' hw h hAllow _ hPerformed
      exact h.step hw hPerformed hAllow
    · intro w w' e hw h hMove
      have hUntouched := untouched_of_outside hMove
      refine ⟨fun e he id hId => ?_, ?_⟩
      · rw [hUntouched.events] at he
        exact (outside_keeps hw hMove).2.lapsed id (h.lapsed e he id hId)
      · rw [hUntouched.events]
        exact h.order
  exact hStand.order

theorem expiry_of_lapsed_offer : ∃ c : (services sampleConfig AnnouncesLapsed).Config,
    (services sampleConfig AnnouncesLapsed).Run (fresh 5 5 sampleRequests) c ∧
    (∃ e ∈ c.1.events, e.expiredId = some 10) ∧
    c.1.events.Pairwise fun e later => e.contradictedBy later = false := by
  obtain ⟨c, hRun, hEnd⟩ := exists_run_of_allowed sampleConfig AnnouncesLapsed
    (fresh 5 5 sampleRequests) expiredMoves
    (fun c => c.1.events.any fun e => e.expiredId = some 10) (by decide +kernel)
  simp only [List.any_eq_true, decide_eq_true_eq] at hEnd
  exact ⟨c, hRun, hEnd, expiry_never_contradicted hRun⟩

/-- The write of a page fails while the chain's time is persisted; an expiration scan marks the
agreement that the page shows accepted, the poll's sweeps announce the expiry, and the next poll
recovers and announces the accept. -/
theorem expiry_contradicted : ∃ c : (allServices sampleConfig).Config,
    (allServices sampleConfig).Run (fresh 5 5 sampleRequests) c ∧
    ¬ c.1.events.Pairwise fun e later => e.contradictedBy later = false := by
  let announced : Moves :=
    [.op 0 .ok, .op 0 (.rows []), .op 0 (.rows []), .op 0 (.rows [10]), .op 0 .ok, .op 0 .ok,
      .op 0 (.rows []), .op 0 (.rows []), .op 0 .ok, .drop 0]
  let recovered : Moves :=
    [.op 0 .ok, .op 0 .ok, .op 0 .ok, .op 0 .ok, .op 0 .ok, .op 0 .ok, .op 0 .ok,
      .op 0 (.rows [10]), .op 0 .ok]
  obtain ⟨c, hRun, hEnd⟩ := exists_run sampleConfig (fresh 5 5 sampleRequests)
    (prematureExpiryMoves ++ announced ++ latePollMoves ++ recovered)
    (fun c => ¬ c.1.events.Pairwise fun e later => e.contradictedBy later = false)
    (by decide +kernel)
  exact ⟨c, hRun, of_decide_eq_true hEnd⟩

end Expired

section Accepted

/-- Whatever a terminated sweep may list has had its `accepted` event stamped, or was listed by the
accepted sweep before it. -/
def ListsAfterAccepted (w : World) (_ : Tag) (o : Op) (_ : Choice) : Prop :=
  match o with
  | .select (.pendingTerminatedEmission limit) =>
    ∀ id ∈ (AgreementQuery.pendingTerminatedEmission limit).matching w.now w.requests w.agreements,
      id ∈ w.acceptedListed ∨ (w.row id).any fun row => row.acceptedEventEmittedAt.isSome
  | _ => True

instance (w : World) (t : Tag) (o : Op) (choice : Choice) :
    Decidable (ListsAfterAccepted w t o choice) := by
  induction o using Op.casesOn with
  | select q =>
    induction q using AgreementQuery.casesOn with
    | pendingTerminatedEmission limit => exact List.decidableBAll _ _
    | _ => exact isTrue trivial
  | _ => exact isTrue trivial

/-- The `accepted` event of every agreement stamped so, listed by the last terminated sweep or
announced as terminated is out, in the last case before. -/
structure World.AcceptedFirst (w : World) : Prop where
  stamped : ∀ id row, w.row id = some row → row.acceptedEventEmittedAt.isSome = true →
    w.Announced id
  listed : ∀ p ∈ w.terminatedListed, w.Announced p.1
  order : ∀ before e after id, w.events = before ++ e :: after → e.terminatedId = some id →
    ∃ e' ∈ before, e'.acceptedId = some id

theorem announced_of_stamped (h : w.AcceptedFirst) (hPerformed : Performed config t w o w')
    {id : IndexingAgreementId} {row' : AgreementRow} (hRow' : w'.row id = some row')
    (hStamp : row'.acceptedEventEmittedAt.isSome = true) : w.Announced id := by
  have hPre := hPerformed.pre
  have hEffect := hPerformed.rowEffect id
  rw [hRow'] at hEffect
  cases hRow : w.row id <;> rw [hRow] at hEffect
  · cases hEffect with
    | register => cases hStamp
  · rename_i row
    have hOld : row'.acceptedEventEmittedAt = row.acceptedEventEmittedAt → w.Announced id :=
      fun hSame => h.stamped id row hRow (hSame ▸ hStamp)
    cases hEffect with
    | same => exact hOld rfl
    | update hRun =>
      rcases (RowUpdate.stamps hRun).1 with hSame | rfl
      · exact hOld hSame
      · exact (hPre row hRow).2
    | reconcile => exact hOld (Agreements.transition_stamps ..).1
    | batch => exact hOld (Agreements.reconcileRow_stamps ..).1

theorem acceptedFirst_fresh (now chainTime : Nat) (requests : Requests) :
    (World.fresh now chainTime requests).AcceptedFirst where
  stamped _ _ hRow := by cases hRow
  listed _ hp := absurd hp List.not_mem_nil
  order before _ _ _ hEvents := by
    cases before <;> cases hEvents

theorem split_concat {α : Type} {l before after : List α} {x e : α}
    (h : l ++ [x] = before ++ e :: after) :
    (e = x ∧ before = l) ∨ ∃ after', l = before ++ e :: after' := by
  rcases List.eq_nil_or_concat after with rfl | ⟨after', y, rfl⟩
  · obtain ⟨rfl, hx⟩ := List.append_inj' h rfl
    exact .inl ⟨(List.singleton_inj.mp hx).symm, rfl⟩
  · rw [List.concat_eq_append, ← List.cons_append, ← List.append_assoc] at h
    exact .inr ⟨after', (List.append_inj' h rfl).1⟩

theorem World.AcceptedFirst.step (h : w.AcceptedFirst) (hw : w.Consistent)
    (hPerformed : Performed config t w o w') (hAllow : ListsAfterAccepted w t o choice) :
    w'.AcceptedFirst where
  stamped id row' hRow' hStamp :=
    (announced_of_stamped h hPerformed hRow' hStamp).mono (hPerformed.grows hw)
  listed p hp := by
    refine World.Announced.mono ?_ (hPerformed.grows hw)
    rcases hPerformed.effect.changes.terminatedListed with hEq | ⟨limit, ids, rfl, hLists, hEq⟩ <;>
      rw [hEq] at hp
    · exact h.listed p hp
    · obtain ⟨hId, -⟩ := mem_listed.mp hp
      have hMatch := AgreementQuery.mem_matching.mpr (hLists.selects hId)
      rcases hAllow p.1 hMatch with hListed | hStamp
      · exact hPerformed.pre.2 p.1 hListed
      · obtain ⟨row, hRow, hStamp⟩ := (Option.any_eq_true _ _).mp hStamp
        exact h.stamped p.1 row hRow hStamp
  order before e after id hEvents hId := by
    rcases hPerformed.effect.changes.events with hEq | ⟨event, rfl, hEq⟩ <;> rw [hEq] at hEvents
    · exact h.order before e after id hEvents hId
    · rcases split_concat hEvents with ⟨rfl, rfl⟩ | ⟨after', hOld⟩
      · cases e with
        | terminated id' =>
          obtain rfl := Option.some.inj hId
          obtain ⟨⟨row, hListed⟩, -⟩ := hPerformed.pre.2
          exact h.listed (id', row) hListed
        | _ => cases hId
      · exact h.order before e after' id hOld hId

/-- When terminated sweeps list only what the accepted sweeps listed or stamped before them, every
`terminated` event comes after an `accepted` event of its agreement. -/
theorem accepted_leads_terminated {c : (services config ListsAfterAccepted).Config}
    (hRun : (services config ListsAfterAccepted).Run (fresh now chainTime requests) c)
    {before after : List Event} {e : Event} {id : IndexingAgreementId}
    (hEvents : c.1.events = before ++ e :: after) (hId : e.terminatedId = some id) :
    ∃ e' ∈ before, e'.acceptedId = some id := by
  have hFirst : c.1.AcceptedFirst := by
    refine invariant_of_run (acceptedFirst_fresh now chainTime requests) ?_ ?_ hRun
    · intro w t o choice r w' hw h hAllow _ hPerformed
      exact h.step hw hPerformed hAllow
    · intro w w' e hw h hMove
      have hUntouched := untouched_of_outside hMove
      have hGrows := (outside_keeps hw hMove).2
      refine ⟨fun id row hRow hStamp => ?_, fun p hp => ?_, ?_⟩
      · rw [hUntouched.sameRow] at hRow
        exact (h.stamped id row hRow hStamp).mono hGrows
      · rw [hUntouched.terminatedListed] at hp
        exact (h.listed p hp).mono hGrows
      · rw [hUntouched.events]
        exact h.order
  exact hFirst.order before e after id hEvents hId

theorem accepted_leads_end : ∃ c : (services sampleConfig ListsAfterAccepted).Config,
    (services sampleConfig ListsAfterAccepted).Run (fresh 5 5 sampleRequests) c ∧
    ∃ before e after, c.1.events = before ++ e :: after ∧ e.terminatedId = some 10 ∧
      ∃ e' ∈ before, e'.acceptedId = some 10 := by
  obtain ⟨c, hRun, hEnd⟩ := exists_run_of_allowed sampleConfig ListsAfterAccepted
    (fresh 5 5 sampleRequests)
    (endedMoves ++ [.op 0 (.rows [10]), .op 0 .ok, .op 0 .ok, .op 0 (.rows [10]), .op 0 (.rows []),
      .op 0 .ok])
    (fun c => c.1.events.any fun e => e.terminatedId = some 10) (by decide +kernel)
  simp only [List.any_eq_true, decide_eq_true_eq] at hEnd
  obtain ⟨e, he, hId⟩ := hEnd
  obtain ⟨before, after, hEvents⟩ := List.append_of_mem he
  exact ⟨c, hRun, before, e, after, hEvents, hId, accepted_leads_terminated hRun hEvents hId⟩

/-- The query of the accepted sweep fails, and the terminated sweep runs all the same. -/
theorem terminated_without_accepted : ∃ c : (allServices sampleConfig).Config,
    (allServices sampleConfig).Run (fresh 5 5 sampleRequests) c ∧
    (∃ e ∈ c.1.events, e.terminatedId = some 10) ∧ ∀ e ∈ c.1.events, e.acceptedId ≠ some 10 := by
  obtain ⟨c, hRun, hEnd⟩ := exists_run sampleConfig (fresh 5 5 sampleRequests)
    (endedMoves ++ [.op 0 .fail, .op 0 (.rows [10]), .op 0 (.rows []), .op 0 .ok])
    (fun c => c.1.events.any (fun e => e.terminatedId = some 10) &&
      c.1.events.all fun e => e.acceptedId ≠ some 10) (by decide +kernel)
  simp only [Bool.and_eq_true, List.any_eq_true, List.all_eq_true, decide_eq_true_eq] at hEnd
  exact ⟨c, hRun, hEnd⟩

end Accepted

end Dipper
