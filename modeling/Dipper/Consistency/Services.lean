import Dipper.Consistency.Jobs

/-! The expiration scan, the liveness check and the reassessment keep to the discipline. -/

namespace Dipper

open World

variable {config : Config} {allow : World → Tag → Op → Choice → Prop} {t : Tag} {w : World}
  {id : IndexingAgreementId} {request : IndexingRequestId} {a : IndexingAgreement}

section Expiration

/-- The agreement's deadline is past by a chain time that the listener has persisted. -/
def World.Overdue (w : World) (config : Config) (a : IndexingAgreement) : Prop :=
  w.Knows a ∧
    ∃ ts ∈ w.clocks, (a.terms.deadline : Int) < asI64 (ts - config.expirationGraceSecs)

theorem World.Overdue.mono {w' : World} (h : w.Overdue config a) (hGrows : w.Grows w') :
    w'.Overdue config a := by
  obtain ⟨hKnows, ts, hTs, hPast⟩ := h
  exact ⟨hKnows.mono hGrows, ts, hGrows.clocks ts hTs, hPast⟩

theorem keeps_expire (h : w.Overdue config a) :
    Keeps config allow t (fun _ _ => True) (Expiration.expire a) w := by
  refine keeps_update rfl (fun w1 row _ hGrows hRow => ?_)
    (fun w1 _ _ => keeps_done)
    (fun w1 _ _ _ => keeps_done) ?_
  · obtain ⟨hKnows, ts, hTs, hPast⟩ := h.mono hGrows
    obtain ⟨row1, hRow1, hTerms, -⟩ := hKnows.stored
    obtain rfl := Option.some.inj (hRow.symm.trans hRow1)
    refine ⟨ts, hTs, ?_⟩
    rw [hTerms]
    exact hPast
  intro x w1 row row' w2 _ _ _ hRun hRow' _ _
  obtain ⟨-, rfl⟩ := setStatusFrom_eq_some.mp hRun
  refine keeps_deletePendingByNew hRow' nofun fun r w3 _ _ => ?_
  refine keeps_free (fun _ => trivial)
    fun (stored : Except RegistryError (Option IndexingRequest)) w4 _ _ => ?_
  split
  · refine keeps_free (fun _ => trivial) fun _ w5 _ _ => ?_
    exact keeps_done
  · exact keeps_done

theorem keeps_expireEach {agreements : List IndexingAgreement}
    (h : ∀ a ∈ agreements, w.Overdue config a) :
    Keeps config allow t (fun _ _ => True) (Expiration.expireEach agreements) w := by
  induction agreements generalizing w with
  | nil => exact keeps_done
  | cons a agreements ih =>
    refine keeps_free (fun _ => trivial) fun stop w1 _ hGrows1 => ?_
    split
    · exact keeps_done
    · refine keeps_bind (keeps_expire ((h a (List.mem_cons_self ..)).mono hGrows1))
        fun _ w2 _ hGrows2 _ => ?_
      exact ih fun b hb => (h b (List.mem_cons_of_mem _ hb)).mono (hGrows1.trans hGrows2)

theorem keeps_scan : Keeps config allow t (fun _ _ => True) (Expiration.scan config) w := by
  refine keeps_call fun w1 hInv1 _ _ => ⟨trivial, ?_⟩
  intro c (state : Except RegistryError (Option (Cursor × Option Nat))) w2 hExec _ _
  dsimp only
  split
  · rename_i cursor chainTs
    obtain ⟨hState, rfl⟩ := registryRead_ok hExec
    have hClock : chainTs ∈ w2.clocks := hInv1.clock cursor chainTs hState.symm
    refine keeps_listAgreements (fun _ => trivial) (fun e w3 _ _ => ?_)
      fun rows w3 _ hGrows3 hListed => ?_
    · exact keeps_done
    · refine keeps_expireEach fun a ha => ⟨hListed.knows ha, chainTs, hGrows3.clocks _ hClock, ?_⟩
      obtain ⟨p, hMem, rfl⟩ := List.mem_map.mp ha
      obtain ⟨now, requests, hSelects⟩ := hListed.selected p hMem
      simp only [AgreementQuery.selects, Bool.and_eq_true, decide_eq_true_eq] at hSelects
      exact hSelects.2
  · exact keeps_done

end Expiration

section Liveness

theorem keeps_replaceAbandoned :
    Keeps config allow t (fun _ _ => True) (Liveness.replaceAbandoned a) w := by
  refine keeps_bind (m := fun _ _ => True) ?_ fun queued w1 _ _ _ => ?_
  · refine keeps_free (fun _ => trivial) fun stored w1 _ _ => ?_
    split
    · exact keeps_done
    · exact keeps_done
    · split
      · exact keeps_done
      · refine keeps_free (fun _ => trivial) fun r w2 _ _ => ?_
        split <;> exact keeps_done
  · split
    · exact keeps_free (fun _ _ _ => trivial) fun _ _ _ _ => keeps_done
    · exact keeps_done

theorem keeps_noteSeenEnded :
    Keeps config allow t (fun _ _ => True) (Liveness.noteSeenEnded a) w := by
  refine keeps_free (fun _ _ _ => trivial) fun r w1 _ _ => ?_
  split <;> exact keeps_done

theorem keeps_cancelAndReassess (hKnows : w.Knows a) (hStatus : a.status = .acceptedOnChain) :
    Keeps config allow t (fun _ _ => True) (Liveness.cancelAndReassess config a) w := by
  unfold Liveness.cancelAndReassess
  split
  · exact keeps_done
  · refine keeps_markCancelling (fun w1 _ _ => keeps_done)
      (fun w1 _ _ _ => keeps_done) fun x w1 _ hGrows1 hMarked => ?_
    refine keeps_bind (keeps_sendMarkedCancel hMarked fun _ =>
      .inl ((hKnows.mono hGrows1).accepted hStatus)) fun started w2 hInv2 hGrows2 _ => ?_
    obtain ⟨row, hRow, hEnding⟩ := (hMarked.mono hGrows2).ending hInv2
    refine keeps_deletePendingByNew hRow (fun h => by rw [h] at hEnding; cases hEnding)
      fun r w3 _ _ => ?_
    cases started with
    | ended => exact keeps_replaceAbandoned
    | mayBeLive => exact keeps_done
    | notLive =>
      refine keeps_bind keeps_noteSeenEnded fun noted w4 _ _ _ => ?_
      split
      · exact keeps_replaceAbandoned
      · exact keeps_done

theorem keeps_checkEach {agreements : List IndexingAgreement}
    (h : ∀ a ∈ agreements, w.Knows a ∧ a.status = .acceptedOnChain) :
    Keeps config allow t (fun _ _ => True) (Liveness.checkEach config agreements) w := by
  induction agreements generalizing w with
  | nil => exact keeps_done
  | cons a agreements ih =>
    have hRest : ∀ {w'}, w.Grows w' → ∀ b ∈ a :: agreements,
        w'.Knows b ∧ b.status = .acceptedOnChain := fun hGrows b hMem =>
      ⟨(h b hMem).1.mono hGrows, (h b hMem).2⟩
    refine keeps_free (fun _ => trivial) fun stale w1 _ hGrows1 => ?_
    dsimp only
    split
    · obtain ⟨hKnows, hStatus⟩ := hRest hGrows1 a (List.mem_cons_self ..)
      refine keeps_bind (keeps_cancelAndReassess hKnows hStatus) fun _ w2 _ hGrows2 _ => ?_
      exact ih fun b hMem => hRest (hGrows1.trans hGrows2) b (List.mem_cons_of_mem _ hMem)
    · exact ih fun b hMem => hRest hGrows1 b (List.mem_cons_of_mem _ hMem)

theorem keeps_check : Keeps config allow t (fun _ _ => True) (Liveness.check config) w := by
  refine keeps_listAgreements (fun _ => trivial) (fun e w1 _ _ => keeps_done)
    fun rows w1 _ _ hListed => keeps_checkEach fun a ha => ⟨hListed.knows ha, ?_⟩
  obtain ⟨p, hMem, rfl⟩ := List.mem_map.mp ha
  obtain ⟨now, requests, hSelects⟩ := hListed.selected p hMem
  exact of_decide_eq_true hSelects

theorem keeps_replaceEndedAbandoned :
    Keeps config allow t (fun _ _ => True) Liveness.replaceEndedAbandoned w := by
  refine keeps_listAgreements (fun _ => trivial) (fun e w1 _ _ => keeps_done)
    fun rows w1 _ _ _ => ?_
  exact .forEach (consistency_sound config allow) (fun _ _ _ => trivial)
    (fun a _ w _ => keeps_replaceAbandoned) trivial

theorem keeps_cancelRetryCycle :
    Keeps config allow t (fun _ _ => True) (cancelRetryCycle config) w :=
  keeps_bind keeps_retryCancellingAgreements fun _ _ _ _ _ => keeps_replaceEndedAbandoned

end Liveness

section Reassess

open Reassess

/-- An agreement of the request's current group, as it was read. -/
def World.Member (w : World) (a : IndexingAgreement) : Prop :=
  w.Knows a ∧ (a.status = .created ∨ a.status = .acceptedOnChain)

theorem World.Member.mono {w' : World} (h : w.Member a) (hGrows : w.Grows w') : w'.Member a :=
  ⟨h.1.mono hGrows, h.2⟩

theorem keeps_readBaseline :
    Keeps config allow t (fun r w' => ∀ b, r = .ok (some b) → ∀ a ∈ b.active, w'.Member a)
      (readBaseline request) w := by
  refine keeps_free (fun _ => trivial) fun stored w1 _ _ => ?_
  split
  · exact keeps_ret fun _ _ _ => nofun
  · exact keeps_ret fun _ _ _ => nofun
  · dsimp only
    refine keeps_listAgreements (fun _ => trivial) (fun e w2 _ _ => keeps_ret fun _ _ _ => nofun)
      fun rows w2 _ _ hListed => ?_
    have hActive : ∀ a ∈ Registry.agreements rows, w2.Member a := by
      intro a ha
      refine ⟨hListed.knows ha, ?_⟩
      obtain ⟨p, hMem, rfl⟩ := List.mem_map.mp ha
      obtain ⟨now, requests, hSelects⟩ := hListed.selected p hMem
      simp only [AgreementQuery.selects, Bool.and_eq_true, Bool.or_eq_true,
        decide_eq_true_eq] at hSelects
      exact hSelects.2
    refine keeps_listAgreements (fun _ => trivial) (fun e w3 _ _ => keeps_ret fun _ _ _ => nofun)
      fun holding w3 _ hGrows3 _ => ?_
    refine keeps_listAgreements (fun _ => trivial) (fun e w4 _ _ => keeps_ret fun _ _ _ => nofun)
      fun inFlight w4 _ hGrows4 _ => ?_
    refine keeps_ret fun w5 _ hGrows5 b hEq => ?_
    simp only [Except.ok.injEq, Option.some.injEq] at hEq
    subst hEq
    exact fun a ha => (hActive a ha).mono ((hGrows3.trans hGrows4).trans hGrows5)

theorem keeps_selectTarget {numCandidates : Nat} :
    Keeps config allow t (fun _ _ => True) (selectTarget request numCandidates) w := by
  refine keeps_free (fun _ => trivial) fun r w1 _ _ => ?_
  cases r with
  | error e => exact keeps_done
  | ok x =>
    refine keeps_free (fun _ => trivial) fun picks w2 _ _ => ?_
    split <;> exact keeps_done

theorem keeps_signalShortfall {b : Baseline} {offerable : Nat} :
    Keeps config allow t (fun _ _ => True) (signalShortfall request b offerable) w := by
  refine keeps_free (fun _ => trivial) fun (r : Except RegistryError Bool) w1 _ _ => ?_
  split
  · split
    · refine keeps_free (fun _ => ⟨.inr rfl, trivial⟩) fun _ w2 _ _ => ?_
      exact keeps_done
    · exact keeps_done
  · exact keeps_done

theorem keeps_resolveDeadlineClock :
    Keeps config allow t (fun _ _ => True) (resolveDeadlineClock config) w := by
  have hNow : ∀ {w}, Keeps config allow t (fun (_ : Except JobError Nat) _ => True)
      (nowSecs >>= fun now => pure (.ok now)) w :=
    keeps_free (fun _ => trivial) fun _ _ _ _ => keeps_done
  unfold resolveDeadlineClock
  split
  · exact hNow
  · refine keeps_free (fun _ => trivial) fun r w1 _ _ => ?_
    cases r with
    | ok ts => exact keeps_done
    | error e =>
      dsimp only
      split
      · exact hNow
      · refine keeps_free (fun _ => trivial) fun state w2 _ _ => ?_
        split
        · exact keeps_done
        · exact hNow
        · exact keeps_done

theorem keeps_registerNew {b : Baseline} {now : Nat} {indexer : IndexerId}
    {replaces : Option IndexingAgreement} (h : ∀ old, replaces = some old → w.Member old) :
    Keeps config allow .reassess (fun _ _ => True)
      (registerNew config request b now indexer replaces) w := by
  refine keeps_call fun w1 _ hGrows1 _ => ⟨trivial, fun c r w2 hExec _ hGrows2 => ?_⟩
  obtain ⟨id, versionHash⟩ := r
  have hLength : versionHash.length = 32 := by
    obtain ⟨⟨id', versionHash'⟩, hFresh, hEq⟩ := Option.map_eq_some_iff.mp hExec
    cases hEq
    exact Choice.length_of_fresh hFresh
  cases replaces with
  | none =>
    refine keeps_call fun w3 _ _ _ => ⟨⟨rfl, ⟨_, rfl, hLength⟩, nofun⟩, fun c r w4 _ _ _ => ?_⟩
    cases r <;> exact keeps_done
  | some old =>
    refine keeps_call fun w3 _ hGrows3 _ => ⟨⟨rfl, ⟨_, rfl, hLength⟩, ?_⟩, fun c r w4 _ _ _ => ?_⟩
    · intro id' hEq
      rw [← Option.some.inj hEq]
      exact ((h old rfl).1.mono ((hGrows1.trans hGrows2).trans hGrows3)).isSome
    · cases r <;> exact keeps_done

theorem keeps_addEach {b : Baseline} {now : Nat} {indexers : List IndexerId}
    {olds : List IndexingAgreement} (h : ∀ old ∈ olds, w.Member old) :
    Keeps config allow .reassess (fun r w' => ∀ old ∈ r.2, w'.Member old)
      (addEach config request b now indexers olds) w := by
  induction indexers generalizing w olds with
  | nil => exact keeps_ret fun w1 _ hGrows old hMem => (h old hMem).mono hGrows
  | cons indexer indexers ih =>
    refine keeps_bind (keeps_registerNew fun old hHead => h old (List.mem_of_mem_head? hHead))
      fun r w1 _ hGrows1 _ => ?_
    have hTail : ∀ {w'}, w1.Grows w' → ∀ old ∈ olds.tail, w'.Member old := fun hGrows old hMem =>
      (h old (List.mem_of_mem_tail hMem)).mono (hGrows1.trans hGrows)
    cases r with
    | error e => exact ih (hTail (.refl w1))
    | ok id =>
      refine keeps_free (fun _ => trivial) fun r w2 _ hGrows2 => ?_
      cases r with
      | error e => exact ih (hTail hGrows2)
      | ok x =>
        refine keeps_bind (ih (hTail hGrows2)) fun r w3 _ hGrows3 hLeft => ?_
        exact keeps_ret fun w4 _ hGrows4 old hMem => (hLeft old hMem).mono hGrows4

/-- Every member has a hash, so it may be live and its cancel goes through the chain. -/
theorem keeps_cancelUnpaired (h : w.Member a) :
    Keeps config allow t (fun _ _ => True) (cancelUnpaired config a) w := by
  obtain ⟨hKnows, hStatus⟩ := h
  obtain ⟨hash, hHash, -⟩ := hKnows.versionHash
  unfold cancelUnpaired
  dsimp only
  split
  · rename_i hDead
    rcases hStatus with hStatus | hStatus <;> simp [hStatus, hHash] at hDead
  · exact keeps_bind (keeps_startCancel hKnows) fun _ _ _ _ _ => keeps_done

theorem keeps_announceProposed {b : Baseline} {now : Nat} {proposed : List IndexerId} :
    Keeps config allow t (fun _ _ => True) (announceProposed config b now proposed) w := by
  unfold announceProposed
  split
  · exact keeps_done
  · refine keeps_free (fun _ => ⟨.inr rfl, trivial⟩) fun _ w1 _ _ => ?_
    exact keeps_done

theorem keeps_carryOut {b : Baseline} {diff : Diff} (h : ∀ a ∈ b.active, w.Member a) :
    Keeps config allow .reassess (fun _ _ => True) (carryOut config request b diff) w := by
  unfold carryOut
  dsimp only
  refine keeps_bind keeps_resolveDeadlineClock fun clock w1 _ hGrows1 _ => ?_
  cases clock with
  | error e => exact keeps_done
  | ok now =>
    refine keeps_free (fun _ => trivial) fun order w2 _ hGrows2 => ?_
    refine keeps_bind (keeps_addEach fun old hMem => ?_) fun r w3 _ _ hLeft => ?_
    · have hActive := List.mem_of_mem_filter (List.mem_of_mem_take hMem)
      exact (h old hActive).mono (hGrows1.trans hGrows2)
    · obtain ⟨proposed, left⟩ := r
      refine keeps_bind keeps_announceProposed fun _ w4 _ hGrows4 _ => ?_
      have hEach := Concurrent.Discipline.Keeps.forEach (consistency_sound config allow)
        (P := fun w' => ∀ old ∈ left, w'.Member old) (t := .reassess)
        (fun _ hRely h old hMem => (h old hMem).mono hRely.1)
        (fun a ha w' h => ((keeps_frame (keeps_cancelUnpaired (h a ha))).mono
          fun _ w'' _ hEnd old hMem => (h old hMem).mono hEnd.1))
        (fun old hMem => (hLeft old hMem).mono hGrows4)
      refine keeps_bind hEach fun _ w5 _ _ _ => ?_
      split <;> exact keeps_done

theorem keeps_reassessJob :
    Keeps config allow .reassess (fun _ _ => True) (Reassess.handle config request) w := by
  refine keeps_bind keeps_readBaseline fun r w1 _ _ hActive => ?_
  split
  · exact keeps_done
  · exact keeps_done
  · rename_i b
    split
    · exact keeps_done
    · refine keeps_bind keeps_selectTarget fun picks w2 _ hGrows2 _ => ?_
      split
      · exact keeps_done
      · refine keeps_bind keeps_signalShortfall fun _ w3 _ hGrows3 _ => ?_
        split
        · exact keeps_done
        · exact keeps_carryOut fun a ha => (hActive b rfl a ha).mono (hGrows2.trans hGrows3)

end Reassess

end Dipper
