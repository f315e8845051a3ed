import Dipper.Consistency.Runs
import Dipper.Passes

/-! The caps on the offers in flight hold along every run of the services, from whatever world they
start in: only a pass adds to the offers, one pass runs at a time, and what it read of the offers
in flight only becomes fewer until it registers. -/

namespace Dipper

open World

variable {config : Config} {w : World} {c c' : (allServices config).Config}

theorem passConditions_of_nothing : PassConditions False False fun _ _ _ _ => True :=
  ⟨nofun, nofun, nofun⟩

theorem created_of_step (hRun : (allServices config).Run (w, []) c)
    (hStep : (allServices config).Step c c') (p : IndexerId → Bool) :
    (c'.1.created p).length ≤ (c.1.created p).length ∨
      ∃ indexer, p indexer = true ∧ c.1.HasRoom config indexer ∧
        (c'.1.created p).length ≤ (c.1.created p).length + 1 := by
  obtain ⟨m, hAllowed, hNext⟩ := hStep
  rcases step_of_passes passConditions_of_nothing hRun hAllowed hNext with
    ⟨t, o, choice, r, -, -, hExec, hPre⟩ | hSame | ⟨e, hMove⟩
  · cases hRegisters : o.registers with
    | false =>
      have hCalm : Calm False c.1 c'.1 :=
        calm_of_exec passConditions_of_nothing (t := t) trivial hExec hRegisters
      exact .inl (hCalm.length_created p)
    | true =>
      cases o with
      | register params replaces =>
        have hMore := Reassess.length_created_of_register (exec_effect hExec) p
        split at hMore
        · rename_i hPicked
          exact .inr ⟨params.indexerId, hPicked, hPre.2.1, hMore⟩
        · exact .inl hMore
      | _ => cases hRegisters
  · rw [hSame]
    exact .inl (Nat.le_refl _)
  · have hCalm : Calm False c.1 c'.1 := calm_of_outside hMove
    exact .inl (hCalm.length_created p)

/-- With the offers there were at the start, the caps bound the offers there can be. -/
theorem offers_within_caps (hRun : (allServices config).Run (w, []) c) :
    (∀ cap, config.maxInFlightOffersTotal = some cap →
      (c.1.created fun _ => true).length ≤ max cap (w.created fun _ => true).length) ∧
    ∀ cap, config.maxInFlightOffersPerIndexer = some cap → ∀ indexer,
      (c.1.created (· = indexer)).length ≤ max cap (w.created (· = indexer)).length := by
  induction hRun with
  | refl =>
    refine ⟨fun cap _ => ?_, fun cap _ indexer => ?_⟩
    · exact Nat.le_max_right _ _
    · exact Nat.le_max_right _ _
  | @tail c c' hPrefix hStep ih =>
    refine ⟨fun cap hCap => ?_, fun cap hCap indexer => ?_⟩
    · have hBefore := ih.1 cap hCap
      rcases created_of_step hPrefix hStep fun _ => true with hFewer | ⟨i, -, hRoom, hMore⟩
      · exact hFewer.trans hBefore
      · have hLeft := hRoom.total cap hCap
        omega
    · have hBefore := ih.2 cap hCap indexer
      rcases created_of_step hPrefix hStep (· = indexer) with hFewer | ⟨i, hEq, hRoom, hMore⟩
      · exact hFewer.trans hBefore
      · obtain rfl : i = indexer := of_decide_eq_true hEq
        have hLeft := hRoom.each cap hCap
        omega

def cappedConfig : Config :=
  { sampleConfig with maxInFlightOffersTotal := some 1, maxInFlightOffersPerIndexer := some 1 }

/-- A pass that offers to one indexer fills both caps. -/
theorem offers_at_caps : ∃ c : (allServices cappedConfig).Config,
    (allServices cappedConfig).Run (fresh 5 5 sampleRequests) c ∧ c.1.created (· = 1) = [10] ∧
      (c.1.created fun _ => true).length ≤ max 1 0 ∧
      (c.1.created (· = 1)).length ≤ max 1 0 := by
  obtain ⟨c, hRun, hCreated⟩ := exists_run cappedConfig (fresh 5 5 sampleRequests)
    (offerMoves 10 1) (fun c => c.1.created (· = 1) = [10]) (by decide +kernel)
  obtain ⟨hTotal, hEach⟩ := offers_within_caps hRun
  exact ⟨c, hRun, of_decide_eq_true hCreated, hTotal 1 rfl, hEach 1 rfl 1⟩

end Dipper
