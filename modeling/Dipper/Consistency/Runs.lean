import Dipper.Consistency.Sweeps

/-! Every run of the services keeps the world consistent, and every operation along it is performed
as the discipline says. -/

namespace Dipper

open World

variable {config : Config} {allow : World → Tag → Op → Choice → Prop}

theorem consistency_starts (config : Config) (allow : World → Tag → Op → Choice → Prop) :
    (consistency config).Starts (services config allow) := by
  have hJob : ∀ {β : Type} {t : Tag} {w : World} {p : Act β},
      Keeps config allow t (fun _ _ => True) p w →
      Keeps config allow t (fun _ _ => True) (p >>= fun _ => pure ()) w := fun h =>
    keeps_bind h fun _ _ _ _ _ => keeps_done
  intro w seed th hInv hStart
  change seed.thread config w = some th at hStart
  cases seed with
  | poll =>
    cases hStart
    exact keeps_poll ⟨hInv.memory, hInv.memoryClock⟩
  | job job =>
    simp only [Seed.thread, Option.ite_none_right_eq_some, Option.some.injEq] at hStart
    obtain ⟨hMem, rfl⟩ := hStart
    cases job with
    | sendIndexingAgreementProposal id request => exact hJob keeps_sendProposalJob
    | submitOffer id request => exact hJob (keeps_submitOfferJob hMem)
    | reassessIndexingRequest request => exact hJob keeps_reassessJob
    | cancelRejectedAgreementOnChain id accept => exact hJob (keeps_cancelRejectedJob hMem)
  | expirationScan =>
    cases hStart
    exact keeps_scan
  | livenessCheck =>
    cases hStart
    exact keeps_check
  | cancelRetry =>
    cases hStart
    exact keeps_cancelRetryCycle

theorem allowed_allServices (c : (allServices config).Config)
    (m : Concurrent.Move Choice Seed Outside) : (allServices config).Allowed c m := by
  cases m <;> first | exact fun _ _ _ _ => trivial | trivial

theorem exists_run (config : Config) (c : (allServices config).Config) (l : Moves)
    (p : (allServices config).Config → Bool)
    (h : ((allServices config).runMoves (fun _ _ _ _ => true) c l).any p = true) :
    ∃ c', (allServices config).Run c c' ∧ p c' = true :=
  Concurrent.System.exists_run_of_moves (fun _ _ _ _ _ => trivial) l p h

theorem exists_run_of_allowed (config : Config) (allow : World → Tag → Op → Choice → Prop)
    [∀ w t o choice, Decidable (allow w t o choice)] (c : (services config allow).Config)
    (l : Moves) (p : (services config allow).Config → Bool)
    (h : ((services config allow).runMoves (fun w t o choice => allow w t o choice) c l).any p =
      true) : ∃ c', (services config allow).Run c c' ∧ p c' = true := by
  refine Concurrent.System.exists_run_of_moves (fun w t o choice hAllow => ?_) l p h
  exact of_decide_eq_true (p := allow w t o choice) hAllow

abbrev fresh (now chainTime : Nat) (requests : Requests) :
    World × List (Concurrent.Thread Tag Op Res Unit) :=
  (World.fresh now chainTime requests, [])

variable {now chainTime : Nat} {requests : Requests} {c c' : (services config allow).Config}

theorem consistent_of_run (hRun : (services config allow).Run (fresh now chainTime requests) c) :
    c.1.Consistent :=
  (Concurrent.Discipline.run_restrict (consistency_sound config allow)
    (consistency_starts config allow) (consistent_fresh now chainTime requests) hRun).1

/-- A condition together with the discipline that keeps the world consistent. -/
def Consistently (config : Config) (allow : World → Tag → Op → Choice → Prop) (w : World) (t : Tag)
    (o : Op) (choice : Choice) : Prop :=
  allow w t o choice ∧ w.Consistent ∧ Pre config t w o

/-- A run from the fresh world is one under the discipline. -/
theorem run_consistently
    (hRun : (services config allow).Run (fresh now chainTime requests) c) :
    (services config (Consistently config allow)).Run (fresh now chainTime requests) c :=
  (Concurrent.Discipline.run_restrict (consistency_sound config allow)
    (consistency_starts config allow) (consistent_fresh now chainTime requests) hRun).2

theorem allowed_consistently
    (hRun : (services config allow).Run (fresh now chainTime requests) c)
    {m : Concurrent.Move Choice Seed Outside} (hAllowed : (services config allow).Allowed c m)
    (hNext : (services config allow).next c m = some c') :
    (services config (Consistently config allow)).Allowed c m :=
  Concurrent.Discipline.allowed_of_run (consistency_sound config allow)
    (consistency_starts config allow) (consistent_fresh now chainTime requests) hRun hAllowed hNext

theorem step_of_run (hRun : (services config allow).Run (fresh now chainTime requests) c)
    {m : Concurrent.Move Choice Seed Outside} (hAllowed : (services config allow).Allowed c m)
    (hNext : (services config allow).next c m = some c') :
    (∃ t o choice r, (services config allow).acts c m = some (t, o) ∧ allow c.1 t o choice ∧
      c.1.exec o choice = some (r, c'.1) ∧ Performed config t c.1 o c'.1) ∨
    ((services config allow).acts c m = none ∧
      (c'.1 = c.1 ∨ ∃ e : Outside, e.move config c.1 = some c'.1)) := by
  have hRestricted := allowed_consistently hRun hAllowed hNext
  rcases Concurrent.System.next_cases _ hRestricted hNext with
    ⟨t, o, r, hActs, choice, hAllow, hExec⟩ | hOther
  · exact .inl ⟨t, o, choice, r, hActs, hAllow.1, hExec, exec_effect hExec, hAllow.2.2⟩
  · exact .inr hOther

/-- A property of the world that the operations keep, performed as the discipline and the condition
say, and that the world outside keeps, holds along every run. -/
theorem invariant_of_run {inv : World → Prop} (hInit : inv (World.fresh now chainTime requests))
    (hOp : ∀ {w t o choice r w'}, w.Consistent → inv w → allow w t o choice →
      w.exec o choice = some (r, w') → Performed config t w o w' → inv w')
    (hOutside : ∀ {w w'} {e : Outside}, w.Consistent → inv w → e.move config w = some w' → inv w')
    (hRun : (services config allow).Run (fresh now chainTime requests) c) : inv c.1 := by
  induction hRun with
  | refl => exact hInit
  | tail hPrefix hStep ih =>
    obtain ⟨m, hAllowed, hNext⟩ := hStep
    have hw := consistent_of_run hPrefix
    rcases step_of_run hPrefix hAllowed hNext with ⟨t, o, choice, r, -, hAllow, hExec, hPerformed⟩ |
      ⟨-, hSame | ⟨e, hMove⟩⟩
    · exact hOp hw ih hAllow hExec hPerformed
    · rw [hSame]
      exact ih
    · exact hOutside hw ih hMove

theorem grows_of_step (hRun : (services config allow).Run (fresh now chainTime requests) c)
    (hStep : (services config allow).Step c c') : c.1.Grows c'.1 := by
  obtain ⟨m, hAllowed, hNext⟩ := hStep
  rcases step_of_run hRun hAllowed hNext with ⟨t, o, choice, r, -, -, -, hPerformed⟩ |
    ⟨-, hSame | ⟨e, hMove⟩⟩
  · exact hPerformed.grows (consistent_of_run hRun)
  · rw [hSame]
    exact .refl _
  · exact (outside_keeps (consistent_of_run hRun) hMove).2

theorem grows_of_run (hRun : (services config allow).Run (fresh now chainTime requests) c)
    (hLater : (services config allow).Run c c') : c.1.Grows c'.1 := by
  induction hLater with
  | refl => exact .refl _
  | tail hPrefix hStep ih => exact ih.trans (grows_of_step (hRun.trans hPrefix) hStep)

end Dipper
