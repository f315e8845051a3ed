import Dipper.DipsInfo.MissingTime

/-! How often an indexer is alerted on while it stays missing.  The alert compares the stored time,
in whole seconds, with the exact time a cycle adds, so a cycle that adds a fraction of a second to a
time just at the limit alerts again. -/

namespace Dipper

namespace DipsInfo

def Recorded.alerts (id : IndexerId) (r : Recorded) : Bool := r.logs.any (·.names id)

section Runs

variable {config : WatcherConfig} {events : List Event} {w w' : Watcher} {c : Circumstances}
  {id : IndexerId} {r : Recorded}

theorem Records.alerts_iff (h : Records config w c r w') :
    r.alerts id = true ↔
      Spells.Reaches nanosPerSec (config.alertAfterHours * 3600) (r.tick id) := by
  have hFound : w.table.stored id = (r.tick id).found := by
    rw [← h.found]
    rfl
  refine (h.named id).trans ?_
  rw [h.step_tick, hFound]
  unfold crossed Spells.Reaches
  rw [decide_eq_true_eq]
  change _ ↔ decide (id ∈ r.missing) = true ∧ _
  rw [decide_eq_true_eq]
  rfl

theorem alerts_iff_of_mem (hr : r ∈ (after config events).2) : r.alerts id = true ↔
    Spells.Reaches nanosPerSec (config.alertAfterHours * 3600) (r.tick id) := by
  induction events using List.reverseRecOn with
  | nil => cases hr
  | append_singleton events e ih =>
    rw [after_concat] at hr
    rcases List.mem_append.mp hr with hOld | hNew
    · exact ih hOld
    · rcases step_cases config (after config events).1 e with ⟨hNone, -⟩ | ⟨c, r', -, hSome, h⟩
      · rw [hNone] at hNew
        cases hNew
      · rw [hSome] at hNew
        obtain rfl := List.mem_singleton.mp hNew
        exact h.alerts_iff

theorem total_before_spell {before : List Recorded}
    (hFresh : ∀ r ∈ before.getLast?, id ∉ r.missing) :
    Spells.total nanosPerSec 0 (ticks id before) = 0 := by
  rcases List.eq_nil_or_concat' before with rfl | ⟨earlier, last, rfl⟩
  · rfl
  · have hOff := hFresh last (by simp)
    rw [ticks_append]
    change Spells.total _ _ (_ ++ [last.tick id]) = 0
    rw [Spells.total_concat]
    simp [Spells.step, Recorded.tick, hOff]

end Runs

/-- Over the recorded cycles since an indexer was last not missing, it is alerted on once if its
stored missing time has reached the limit, and never otherwise, exactly where no cycle that adds a
fraction of a second found the stored time just at the limit. -/
theorem alerted_once_iff (config : WatcherConfig) (events : List Event) (id : IndexerId)
    (before spell : List Recorded) (hSplit : (after config events).2 = before ++ spell)
    (hFresh : ∀ r ∈ before.getLast?, id ∉ r.missing) (hMissing : ∀ r ∈ spell, id ∈ r.missing) :
    (spell.countP (·.alerts id) ≤ 1 ∧
      (config.alertAfter ≤ Duration.fromSecs ((after config events).1.table.stored id) →
        spell.countP (·.alerts id) = 1)) ↔
    ∀ r ∈ spell, ¬(Duration.fromSecs (r.found.stored id) = config.alertAfter ∧
      r.added % nanosPerSec ≠ 0) := by
  have hUnit : 0 < nanosPerSec := by decide
  have hLimit : 0 < config.alertAfterHours * 3600 := Nat.mul_pos config.alert_pos (by decide)
  have hStored : (after config events).1.table.stored id =
      Spells.total nanosPerSec 0 (ticks id (after config events).2) := counted_after.1
  have hLinked : Spells.Linked nanosPerSec 0 (ticks id (after config events).2) := counted_after.2
  rw [hSplit, ticks_append] at hStored hLinked
  have hSpell := (Spells.linked_append.mp hLinked).2
  rw [Spells.total_append, total_before_spell hFresh] at hStored
  rw [total_before_spell hFresh] at hSpell
  have hOn : ∀ k ∈ ticks id spell, k.on = true := by
    intro k hk
    obtain ⟨r, hr, rfl⟩ := List.mem_map.mp hk
    exact decide_eq_true (hMissing r hr)
  have hCount : spell.countP (·.alerts id) = (ticks id spell).countP
      (Spells.Reaches nanosPerSec (config.alertAfterHours * 3600) ·) := by
    unfold ticks
    rw [List.countP_map]
    refine List.countP_congr fun r hr => ?_
    have hMem : r ∈ (after config events).2 := hSplit ▸ List.mem_append_right _ hr
    rw [alerts_iff_of_mem hMem]
    exact decide_eq_true_iff.symm
  have hReached : config.alertAfter ≤ Duration.fromSecs ((after config events).1.table.stored id) ↔
      config.alertAfterHours * 3600 ≤ Spells.total nanosPerSec 0 (ticks id spell) := by
    rw [hStored]
    exact Nat.mul_le_mul_right_iff hUnit
  have hAtLimit : (∀ r ∈ spell, ¬(Duration.fromSecs (r.found.stored id) = config.alertAfter ∧
      r.added % nanosPerSec ≠ 0)) ↔
      ∀ k ∈ ticks id spell, ¬Spells.AtLimit nanosPerSec (config.alertAfterHours * 3600) k := by
    unfold ticks Spells.AtLimit
    rw [List.forall_mem_map]
    refine forall₂_congr fun r _ => not_congr (and_congr_left fun _ => ?_)
    exact Nat.mul_left_inj (Nat.pos_iff_ne_zero.mp hUnit)
  rw [hCount, hReached, hAtLimit]
  exact Spells.reached_once_iff hUnit hLimit hOn hSpell hLimit

/-- Checks every half hour, an alert after one hour. -/
def halfHourly : WatcherConfig :=
  { sampleConfig with
    interval := Duration.fromSecs 1800
    interval_pos := by decide
    interval_le := by decide }

/-- The fourth cycle comes a millisecond late and alerts again. -/
theorem alerted_twice :
    let events : List Event := [.cycle (sampleCheck 0),
      .cycle (sampleCheck (Duration.fromSecs 1800)), .cycle (sampleCheck (Duration.fromSecs 3600)),
      .cycle (sampleCheck (Duration.fromSecs 5400 + 1000000))]
    (∀ r ∈ (after halfHourly events).2, 1 ∈ r.missing) ∧
    (after halfHourly events).2.map (·.alerts 1) = [false, false, true, true] := by
  decide +kernel

/-- With cycles on the second it is alerted on once. -/
theorem alerted_once_iff_on_the_second :
    let events : List Event := [.cycle (sampleCheck 0),
      .cycle (sampleCheck (Duration.fromSecs 1800)), .cycle (sampleCheck (Duration.fromSecs 3600)),
      .cycle (sampleCheck (Duration.fromSecs 5400))]
    (after halfHourly events).1.table.stored 1 = 5400 ∧
    (after halfHourly events).2.countP (·.alerts 1) = 1 := by
  intro events
  have hMissing : ∀ r ∈ (after halfHourly events).2, 1 ∈ r.missing := by decide +kernel
  have hWhole : ∀ r ∈ (after halfHourly events).2, r.added % nanosPerSec = 0 := by decide +kernel
  have hStored : (after halfHourly events).1.table.stored 1 = 5400 := by decide +kernel
  have hOnce := (alerted_once_iff halfHourly events 1 [] (after halfHourly events).2 rfl
    (fun r hr => by cases hr) hMissing).mpr fun r hr hBoth => hBoth.2 (hWhole r hr)
  refine ⟨hStored, hOnce.2 ?_⟩
  rw [hStored]
  decide

end DipsInfo

end Dipper
