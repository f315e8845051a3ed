import Dipper.DipsInfo.Watcher
import Dipper.Spells

/-! Nobody is blocked early: the missing time that is stored for an indexer is no longer than it has
been missing, and only such a time blocks it. -/

namespace Dipper

namespace DipsInfo

abbrev nanosPerSec : Nat := 1000000000

/-- A recorded cycle as a tick of an indexer's missing time. -/
def Recorded.tick (id : IndexerId) (r : Recorded) : Spells.Tick :=
  ⟨r.now, id ∈ r.missing, r.added, r.found.stored id⟩

def ticks (id : IndexerId) (cycles : List Recorded) : List Spells.Tick := cycles.map (·.tick id)

/-- The time from the last recorded cycle in which an indexer was not missing, or from the very
first one, to the latest. -/
def missingFor (id : IndexerId) (cycles : List Recorded) : Nat :=
  Spells.latest (ticks id cycles) - Spells.since (ticks id cycles)

section Durations

theorem fromSecs_le_fromSecs {m n : Nat} (h : m ≤ n) : Duration.fromSecs m ≤ Duration.fromSecs n :=
  Nat.mul_le_mul_right _ h

theorem fromSecs_add_asSecs_le {m n : Nat} :
    Duration.fromSecs (m + Duration.asSecs n) ≤ Duration.fromSecs m + n := by
  unfold Duration.fromSecs Duration.asSecs
  omega

end Durations

section Runs

variable {config : WatcherConfig} {events : List Event} {e : Event} {w : Watcher}
  {c : Circumstances} {id : IndexerId}

theorem after_concat : after config (events ++ [e]) =
    (((after config events).1.step config e).watcher,
      (after config events).2 ++ ((after config events).1.step config e).recorded.toList) := by
  unfold after
  rw [List.foldl_append]
  rfl

theorem step_cases (config : WatcherConfig) (w : Watcher) (e : Event) :
    ((w.step config e).recorded = none ∧ (w.step config e).watcher.table = w.table ∧
      ∀ t, (w.step config e).watcher.cycles.lastRecorded = some t →
        w.cycles.lastRecorded = some t) ∨
    ∃ c r, e = .cycle c ∧ (w.step config e).recorded = some r ∧
      Records config w c r (w.step config e).watcher := by
  cases e with
  | restart => exact .inl ⟨rfl, rfl, fun t ht => by cases ht⟩
  | cycle c =>
    rcases runCycle_cases config w c with ⟨hNone, hTable, hLast⟩ | ⟨r, hr⟩
    · exact .inl ⟨hNone, hTable, fun t ht => hLast.symm.trans ht⟩
    · exact .inr ⟨c, r, rfl, hr⟩

theorem ticks_append {cycles cycles' : List Recorded} :
    ticks id (cycles ++ cycles') = ticks id cycles ++ ticks id cycles' := List.map_append

theorem ticks_eq_nil {cycles : List Recorded} : ticks id cycles = [] ↔ cycles = [] :=
  List.map_eq_nil_iff

theorem Records.step_tick {r : Recorded} {w' : Watcher} (h : Records config w c r w') :
    w'.table.stored id = Spells.step nanosPerSec (w.table.stored id) (r.tick id) := by
  rw [h.stored id]
  simp only [Spells.step, Recorded.tick, decide_eq_true_eq]
  rfl

/-- The missing time stored for an indexer is the counter over the recorded cycles, and each of them
found it so. -/
theorem counted_after :
    (after config events).1.table.stored id =
      Spells.total nanosPerSec 0 (ticks id (after config events).2) ∧
    Spells.Linked nanosPerSec 0 (ticks id (after config events).2) := by
  induction events using List.reverseRecOn with
  | nil => exact ⟨rfl, trivial⟩
  | append_singleton events e ih =>
    obtain ⟨hStored, hLinked⟩ := ih
    rw [after_concat]
    rcases step_cases config (after config events).1 e with
      ⟨hNone, hTable, -⟩ | ⟨c, r, -, hSome, hRecords⟩
    · rw [hNone, hTable, Option.toList_none, List.append_nil]
      exact ⟨hStored, hLinked⟩
    · rw [hSome, Option.toList_some, ticks_append]
      change _ = Spells.total _ _ (_ ++ [r.tick id]) ∧ Spells.Linked _ _ (_ ++ [r.tick id])
      rw [Spells.total_concat, ← hStored, Spells.linked_append, ← hStored]
      refine ⟨hRecords.step_tick, hLinked, ?_, trivial⟩
      rw [← hRecords.found]
      rfl

theorem cycleTimes_append {events' : List Event} :
    cycleTimes (events ++ events') = cycleTimes events ++ cycleTimes events' :=
  List.filterMap_append

/-- A recorded cycle is one of the events, and those it found missing are those it asked that gave
no readable answer. -/
theorem cycle_of_recorded {r : Recorded} (hr : r ∈ (after config events).2) :
    ∃ c, .cycle c ∈ events ∧ r.now = c.now ∧
      ∀ id, id ∈ r.missing ↔ c.Asks r.found id ∧ c.answers id = false := by
  induction events using List.reverseRecOn with
  | nil => cases hr
  | append_singleton events e ih =>
    rw [after_concat] at hr
    rcases List.mem_append.mp hr with hOld | hNew
    · obtain ⟨c, hMem, hCycle⟩ := ih hOld
      exact ⟨c, List.mem_append_left _ hMem, hCycle⟩
    · rcases step_cases config (after config events).1 e with ⟨hNone, -⟩ | ⟨c, r', rfl, hSome, h⟩
      · rw [hNone] at hNew
        cases hNew
      · rw [hSome] at hNew
        obtain rfl := List.mem_singleton.mp hNew
        refine ⟨c, List.mem_append_right _ (List.mem_singleton_self _), h.now, ?_⟩
        rw [h.found]
        exact h.missing

theorem mem_cycleTimes {r : Recorded} (hr : r ∈ (after config events).2) :
    r.now ∈ cycleTimes events := by
  obtain ⟨c, hMem, hNow, -⟩ := cycle_of_recorded hr
  exact List.mem_filterMap.mpr ⟨.cycle c, hMem, by rw [hNow]⟩

theorem latest_ticks (id : IndexerId) {cycles : List Recorded} (hSome : cycles ≠ []) :
    ∃ r ∈ cycles, Spells.latest (ticks id cycles) = r.now := by
  rcases List.eq_nil_or_concat' cycles with hNil | ⟨before, r, rfl⟩
  · exact absurd hNil hSome
  · refine ⟨r, List.mem_append_right _ (List.mem_singleton_self _), ?_⟩
    rw [ticks_append]
    exact Spells.latest_concat

theorem Records.added_le {r : Recorded} {w' : Watcher} (h : Records config w c r w') :
    r.added ≤ 2 * config.interval ∧ (w'.cycles.paused = true → r.added = 0) ∧
    (w.cycles.lastRecorded = none → r.added = 0) ∧
    ∀ t, w.cycles.lastRecorded = some t → r.added ≤ c.now - t := by
  have hElapsed : r.added ≤ w.cycles.elapsed c.now config.interval := by
    rw [h.added]
    split
    · exact Nat.zero_le _
    · exact Nat.le_refl _
  refine ⟨Nat.le_trans hElapsed elapsed_le, fun hPaused => ?_, fun hNone => ?_, fun t hLast => ?_⟩
  · rw [h.added, if_pos hPaused]
  · unfold Cycles.elapsed at hElapsed
    rw [hNone] at hElapsed
    exact Nat.le_zero.mp (Nat.le_trans hElapsed (Nat.min_le_left _ _))
  · unfold Cycles.elapsed at hElapsed
    rw [hLast] at hElapsed
    exact Nat.le_trans hElapsed (Nat.min_le_left _ _)

/-- Each recorded cycle adds no more than the time since the one before it, also where a restart
lies between them. -/
theorem paced_after (id : IndexerId) (hTimes : (cycleTimes events).Pairwise (· ≤ ·)) :
    Spells.Paced (ticks id (after config events).2) ∧
    ∀ t, (after config events).1.cycles.lastRecorded = some t →
      (after config events).2 ≠ [] ∧ Spells.latest (ticks id (after config events).2) = t := by
  induction events using List.reverseRecOn with
  | nil =>
    refine ⟨⟨fun k hk => ?_, List.IsChain.nil⟩, fun t ht => ?_⟩
    · cases hk
    · cases ht
  | append_singleton events e ih =>
    rw [cycleTimes_append] at hTimes
    obtain ⟨hBefore, -, hLater⟩ := List.pairwise_append.mp hTimes
    obtain ⟨hPaced, hLast⟩ := ih hBefore
    rw [after_concat]
    rcases step_cases config (after config events).1 e with
      ⟨hNone, -, hKept⟩ | ⟨c, r, rfl, hSome, hRecords⟩
    · rw [hNone, Option.toList_none, List.append_nil]
      exact ⟨hPaced, fun t ht => hLast t (hKept t ht)⟩
    · rw [hSome, Option.toList_some, ticks_append]
      change Spells.Paced (_ ++ [r.tick id]) ∧ ∀ t, _ → _ ∧ Spells.latest (_ ++ [r.tick id]) = t
      obtain ⟨-, -, hFresh, hSince⟩ := hRecords.added_le
      have hTime : (r.tick id).time = c.now := hRecords.now
      rw [Spells.paced_concat, Spells.latest_concat, hTime]
      refine ⟨⟨hPaced, ?_⟩, fun t ht => ⟨by simp, ?_⟩⟩
      · change if _ then r.added = 0 else _ + r.added ≤ _
        cases hProcess : (after config events).1.cycles.lastRecorded with
        | none =>
          rw [hFresh hProcess]
          split
          · rfl
          · rename_i hCycles
            obtain ⟨r', hr', hLatest⟩ := latest_ticks id fun hNil => hCycles (ticks_eq_nil.mpr hNil)
            rw [hLatest]
            exact hLater _ (mem_cycleTimes hr') _ (List.mem_singleton_self _)
        | some t =>
          obtain ⟨hCycles, hLatest⟩ := hLast t hProcess
          have hAdded := hSince t hProcess
          obtain ⟨r', hr', hIs⟩ := latest_ticks id hCycles
          have hOrder := hLater _ (mem_cycleTimes hr') c.now (List.mem_singleton_self _)
          rw [if_neg fun hNil => hCycles (ticks_eq_nil.mp hNil), hLatest]
          omega
      · rw [hRecords.last] at ht
        exact Option.some.inj ht

end Runs

/-- The missing time stored for an indexer is at most the time it has been missing; it does not grow
in a cycle judged while counting is paused, and by at most two intervals in any; and an indexer that
is not blocked when a cycle reads the blocks is blocked by it only if counting is not paused and its
stored missing time is at least the limit. -/
theorem never_blocked_early (config : WatcherConfig) (events : List Event)
    (hTimes : (cycleTimes events).Pairwise (· ≤ ·)) (id : IndexerId) :
    Duration.fromSecs ((after config events).1.table.stored id) ≤
      missingFor id (after config events).2 ∧
    ∀ c w', w' = (runCycle config (after config events).1 c).watcher →
      (w'.cycles.paused = true →
        w'.table.stored id ≤ (after config events).1.table.stored id) ∧
      Duration.fromSecs (w'.table.stored id) ≤
        Duration.fromSecs ((after config events).1.table.stored id) + 2 * config.interval ∧
      ∀ until', w'.table.blockedUntil id = some until' →
        (after config events).1.table.blockedUntil id ≠ some until' →
        (∀ readAt, c.blocksReadAt = some readAt →
          id ∉ (after config events).1.table.getDipsInfoBlocks readAt) →
        w'.cycles.paused = false ∧
          config.denylistAfter ≤ Duration.fromSecs (w'.table.stored id) := by
  constructor
  · rw [counted_after.1]
    unfold missingFor Duration.fromSecs
    by_cases hSome : (after config events).2 = []
    · rw [hSome]
      change 0 * 1000000000 ≤ _
      omega
    · have hBound := Spells.total_le nanosPerSec (paced_after id hTimes).1
        fun hNil => hSome (ticks_eq_nil.mp hNil)
      exact Nat.le_sub_of_add_le' hBound
  · intro c w' hw'
    generalize (after config events).1 = w at hw' ⊢
    subst hw'
    rcases runCycle_cases config w c with ⟨-, hTable, -⟩ | ⟨r, -, h⟩
    · rw [hTable]
      exact ⟨fun _ => Nat.le_refl _, by omega, fun _ hUntil hNew => absurd hUntil hNew⟩
    · obtain ⟨hInterval, hPaused, -⟩ := h.added_le
      refine ⟨fun hJudged => ?_, ?_, fun until' hUntil hNew hFree => ?_⟩
      · rw [h.stored, hPaused hJudged]
        split
        · exact Nat.le_refl _
        · exact Nat.zero_le _
      · rw [h.stored]
        split
        · exact Nat.le_trans fromSecs_add_asSecs_le (Nat.add_le_add_left hInterval _)
        · exact Nat.le_trans (fromSecs_le_fromSecs (Nat.zero_le _)) (Nat.le_add_right _ _)
      · obtain ⟨hLimit, hBlocks⟩ := h.blocked id until' hUntil hNew
        refine ⟨Bool.eq_false_iff.mpr fun hJudged => ?_, hLimit⟩
        obtain ⟨readAt, hReadAt, hMem⟩ := (Option.any_eq_true _ _).mp (hBlocks hJudged)
        exact hFree readAt hReadAt (of_decide_eq_true hMem)

def sampleConfig : WatcherConfig where
  interval := Duration.fromSecs 86400
  alertAfterHours := 1
  denylistAfterHours := 2
  trips := fun checked missing => 3 ≤ checked ∧ checked ≤ 2 * missing
  interval_pos := by decide
  interval_le := by decide
  alert_pos := by decide
  alert_lt := by decide

/-- A cycle in which indexer 1 holds an agreement and does not answer. -/
def sampleCheck (now : Nat) : Circumstances where
  now := now
  holders := some [1]
  blocksReadAt := some now
  answers := fun _ => false
  recordFails := false
  blockAt := some now

/-- Indexer 1 is found missing twice, a day apart, and is blocked. -/
theorem never_blocked_early_day :
    let w := (after sampleConfig [.cycle (sampleCheck 0)]).1
    let w' := (runCycle sampleConfig w (sampleCheck (Duration.fromSecs 86400))).watcher
    w.table.blockedUntil 1 = none ∧
    w'.table.blockedUntil 1 = some (Duration.fromSecs (4 * 86400)) ∧
    w'.table.stored 1 = 86400 ∧ w'.cycles.paused = false ∧
    sampleConfig.denylistAfter ≤ Duration.fromSecs (w'.table.stored 1) := by
  intro w w'
  have hFree : w.table.blockedUntil 1 = none := by decide +kernel
  have hBlocked : w'.table.blockedUntil 1 = some (Duration.fromSecs (4 * 86400)) := by
    decide +kernel
  have hNoBlocks : ∀ readAt, (1 : IndexerId) ∉ w.table.getDipsInfoBlocks readAt := by
    intro readAt hMem
    obtain ⟨until', hUntil, -⟩ := MissingTable.mem_getDipsInfoBlocks.mp hMem
    rw [hFree] at hUntil
    cases hUntil
  obtain ⟨-, hCycles⟩ :=
    never_blocked_early sampleConfig [.cycle (sampleCheck 0)] (by decide) 1
  obtain ⟨-, -, hOnly⟩ := hCycles (sampleCheck (Duration.fromSecs 86400)) w' rfl
  refine ⟨hFree, hBlocked, by decide +kernel, ?_⟩
  refine hOnly _ hBlocked (fun hEq => ?_) fun readAt _ => hNoBlocks readAt
  exact absurd (hFree.symm.trans hEq) (by simp)

end DipsInfo

end Dipper
