import Dipper.DrainRuns

/-! The chain time that the expiration scan goes by: the listener persists it page by page, never
below the time it knows to be persisted and never further ahead of the wall clock than the drift
tolerance.  Drains may be cut short and the listener restarted between and within them. -/

namespace Dipper

open Concurrent World

def World.chainClock (w : World) : Option Nat := w.listenerState.bind (·.2)

namespace Listener

/-- The clock reads `b` where it read `a` before, and has not gone back. -/
def NotBehind (a b : Option Nat) : Prop := ∀ ts ∈ a, ∃ ts' ∈ b, ts ≤ ts'

theorem NotBehind.refl (a : Option Nat) : NotBehind a a := fun ts hTs => ⟨ts, hTs, le_refl ts⟩

theorem NotBehind.trans {a b c : Option Nat} (h : NotBehind a b) (h' : NotBehind b c) :
    NotBehind a c := by
  intro ts hTs
  obtain ⟨ts1, hTs1, hLe1⟩ := h ts hTs
  obtain ⟨ts2, hTs2, hLe2⟩ := h' ts1 hTs1
  exact ⟨ts2, hTs2, hLe1.trans hLe2⟩

/-- What the other services leave alone: only the listener writes its state. -/
def SameState (w w' : World) : Prop := w'.listenerState = w.listenerState

theorem SameState.refl (w : World) : SameState w w := rfl

theorem SameState.chainClock {w w' : World} (h : SameState w w') :
    w'.chainClock = w.chainClock := by
  rw [World.chainClock, h, World.chainClock]

/-- The listener's memory and the world, with the drains until now. -/
structure Clockwork where
  memory : ListenerMemory
  world : World
  drains : List (List (Action World Op))

namespace Clockwork

/-- A drain; one cut short anywhere, also before its first call, by a restart; or changes by
others. -/
inductive Step (config : Config) (allow : World → Op → Choice → Prop) : Clockwork → Clockwork → Prop
  | drain {c : Clockwork} {memory : ListenerMemory} {result : Except Unit DrainOutcome}
      {tr : List (Action World Op)} {w' : World} :
      (drainOnce config c.memory).Runs (World.Performs allow) SameState c.world tr
        (some (memory, result)) w' →
      Step config allow c ⟨memory, w', c.drains ++ [tr]⟩
  | restart {c : Clockwork} {tr : List (Action World Op)} {w' : World} :
      (drainOnce config c.memory).Runs (World.Performs allow) SameState c.world tr none w' →
      Step config allow c ⟨w'.startingMemory config, w', c.drains ++ [tr]⟩
  | change {c : Clockwork} {w' : World} : SameState c.world w' →
      Step config allow c { c with world := w' }

abbrev Reaches (config : Config) (allow : World → Op → Choice → Prop) :
    Clockwork → Clockwork → Prop :=
  Relation.ReflTransGen (Step config allow)

/-- The listener starts, with no time persisted. -/
structure Unset (config : Config) (c : Clockwork) : Prop where
  memory : c.memory = c.world.startingMemory config
  clock : c.world.chainClock = none
  drains : c.drains = []

end Clockwork

/-- No write of the listener's state takes effect when it is reported to have failed. -/
def WritesKnown (_ : World) (o : Op) (choice : Choice) : Prop :=
  match o, choice with
  | .updateListenerState _ _, .lost => False
  | _, _ => True

instance (w : World) (o : Op) (choice : Choice) : Decidable (WritesKnown w o choice) := by
  induction o using Op.casesOn with
  | updateListenerState cursor timestamp =>
    induction choice using Choice.casesOn with
    | lost => exact isFalse not_false
    | _ => exact isTrue trivial
  | _ => exact isTrue trivial

section Writes

variable {config : Config} {w w' : World} {o : Op} {seen seen' : List Nat}

/-- The time is no later than one persisted, or than the tolerance lets it be after a reading of
the wall clock. -/
def Within (config : Config) (persisted : Option Nat) (readings : List Nat) (ts : Nat) : Prop :=
  (∃ old ∈ persisted, ts ≤ old) ∨
    ∃ now ∈ readings, ts ≤ now + config.chainTsDriftToleranceSecs

/-- What a call of a drain does to the clock, with the readings of the wall clock `seen` so far. -/
structure Ratchets (config : Config) (w : World) (seen : List Nat) (o : Op) (w' : World)
    (seen' : List Nat) : Prop where
  readings : ∀ now ∈ seen', now ∈ seen ∨ o = .now ∧ w.now = now
  writes : ∀ cursor ts, o = .updateListenerState cursor (some ts) →
    Within config w.chainClock seen ts
  forward : NotBehind w.chainClock w'.chainClock
  clock : w'.chainClock = w.chainClock ∨ ∃ cursor, o = .updateListenerState cursor w'.chainClock

theorem saturatingAdd_le {a b : Nat} : saturatingAdd a b ≤ a + b := by
  unfold saturatingAdd
  exact Nat.min_le_left _ _

theorem applyChainTsDriftCap_le (new cached now tolerance : Nat) :
    applyChainTsDriftCap new cached now tolerance false ≤ max cached (now + tolerance) := by
  have hSum : saturatingAdd now tolerance ≤ now + tolerance := saturatingAdd_le
  simp only [applyChainTsDriftCap, Bool.false_eq_true, if_false]
  split <;> omega

theorem le_applyChainTsDriftCap {new cached now tolerance : Nat} (h : cached ≤ new) :
    cached ≤ applyChainTsDriftCap new cached now tolerance false := by
  simp only [applyChainTsDriftCap, Bool.false_eq_true, if_false]
  split <;> omega

theorem chainClock_of_exec {choice : Choice} {r : Res o} (hExec : w.exec o choice = some (r, w'))
    (ho : ∀ cursor ts, o ≠ .updateListenerState cursor ts) : SameState w w' := by
  rcases (exec_effect hExec).changes.listenerState with hSame | ⟨cursor, ts, hOp, -⟩
  · exact hSame.1
  · exact absurd hOp (ho cursor ts)

theorem ratchets_of_exec {choice : Choice} {r : Res o} (hExec : w.exec o choice = some (r, w'))
    (ho : ∀ cursor ts, o ≠ .updateListenerState cursor ts)
    (hSeen : ∀ now ∈ seen', now ∈ seen ∨ o = .now ∧ w.now = now) :
    Ratchets config w seen o w' seen' where
  readings := hSeen
  writes cursor ts hOp := absurd hOp (ho cursor (some ts))
  forward := by
    rw [(chainClock_of_exec hExec ho).chainClock]
    exact .refl _
  clock := .inl (chainClock_of_exec hExec ho).chainClock

variable (config) (w seen) in
/-- The contract of a part of a drain, with the wall-clock readings as the ghost value. -/
abbrev Keeps {α : Type} (p : Act α) (post : α → List Nat → World → Prop) : Prop :=
  p.Meets (World.Performs WritesKnown) SameState (Ratchets config) post seen w

theorem keeps_of_leavesState {α : Type} {p : Act α} (hp : LeavesState p) :
    Keeps config w seen p fun _ seen' w' => seen' = seen ∧ w'.chainClock = w.chainClock := by
  induction p generalizing w with
  | ret a =>
    intro w' hRely
    exact ⟨rfl, hRely.chainClock⟩
  | op o next ih =>
    intro w1 hRely r w2 hPerforms
    obtain ⟨choice, -, hExec⟩ := hPerforms
    refine ⟨seen, ratchets_of_exec hExec hp.1 fun now hNow => .inl hNow, ?_⟩
    have hClock : w2.chainClock = w.chainClock := by
      rw [(chainClock_of_exec hExec hp.1).chainClock, hRely.chainClock]
    refine (ih r (hp.2 r)).mono fun _ _ w3 hPost => ?_
    rw [hPost.2, hClock]
    exact ⟨hPost.1, rfl⟩

theorem keeps_nowSecs : Keeps config w seen nowSecs fun now seen' w' =>
    seen' = seen ++ [now] ∧ w'.chainClock = w.chainClock := by
  intro w1 hRely (now : Nat) w2 hPerforms
  obtain ⟨choice, -, hExec⟩ := hPerforms
  have hNow : w1.now = now := by
    obtain ⟨_, -, hPair⟩ := Option.map_eq_some_iff.mp hExec
    exact (Prod.mk.inj hPair).1
  have hSame : SameState w1 w2 := chainClock_of_exec hExec nofun
  refine ⟨seen ++ [now], ratchets_of_exec hExec nofun fun n hn => ?_, fun w3 hRely' => ⟨rfl, ?_⟩⟩
  · rcases List.mem_append.mp hn with hOld | hNew
    · exact .inl hOld
    · obtain rfl := List.mem_singleton.mp hNew
      exact .inr ⟨rfl, hNow⟩
  · rw [SameState.chainClock hRely', hSame.chainClock, hRely.chainClock]

/-- What is to be persisted after a page. -/
structure Ratcheted (config : Config) (cached : Option Nat) (seen : List Nat)
    (ratchet : Option Nat) : Prop where
  forward : NotBehind cached ratchet
  within : ∀ ts ∈ ratchet, Within config cached seen ts

theorem ratcheted_cached {cached : Option Nat} : Ratcheted config cached seen cached where
  forward := .refl _
  within ts hTs := .inl ⟨ts, hTs, le_refl ts⟩

theorem keeps_ratchetTimestamp (hBypass : config.bypassChainClockDefenses = false)
    {newTs cachedTs : Option Nat} :
    Keeps config w seen (ratchetTimestamp config newTs cachedTs) fun ratchet seen' w' =>
      Ratcheted config cachedTs seen' ratchet ∧ w'.chainClock = w.chainClock := by
  unfold ratchetTimestamp
  split
  · exact fun w' hRely => ⟨ratcheted_cached, hRely.chainClock⟩
  · rename_i new
    split
    · exact fun w' hRely => ⟨ratcheted_cached, hRely.chainClock⟩
    · rename_i hAny
      refine Prog.Meets.bind SameState.refl (keeps_nowSecs.mono ?_)
      rintro now seen' w' ⟨rfl, hClock⟩ w'' hRely
      refine ⟨?_, hRely.chainClock.trans hClock⟩
      rw [hBypass]
      have hCap := applyChainTsDriftCap_le new (cachedTs.getD 0) now
        config.chainTsDriftToleranceSecs
      constructor
      · intro old hOld
        obtain rfl : cachedTs = some old := hOld
        refine ⟨_, rfl, le_applyChainTsDriftCap ?_⟩
        simp only [Option.any_some, decide_eq_true_eq] at hAny
        exact Nat.le_of_not_lt hAny
      · intro ts hTs
        obtain rfl := Option.some.inj hTs
        by_cases hLe : applyChainTsDriftCap new (cachedTs.getD 0) now
            config.chainTsDriftToleranceSecs false ≤ now + config.chainTsDriftToleranceSecs
        · exact .inr ⟨now, by simp, hLe⟩
        · cases cachedTs with
          | none =>
            simp only [Option.getD_none] at hCap hLe
            omega
          | some old =>
            simp only [Option.getD_some] at hCap hLe
            exact .inl ⟨old, rfl, by simp only [Option.getD_some]; omega⟩

theorem keeps_persistState {changed : Bool} {cursor : Cursor} {ratchet cached : Option Nat}
    (hCached : cached = w.chainClock) (hRatchet : Ratcheted config cached seen ratchet) :
    Keeps config w seen (persistState changed cursor ratchet cached) fun persisted _ w' =>
      persisted = w'.chainClock := by
  unfold persistState
  split
  · refine Prog.Meets.bind SameState.refl ?_
    intro w1 hRely r w2 hPerforms
    obtain ⟨choice, hKnown, hExec⟩ := hPerforms
    have hClock : cached = w1.chainClock := by rw [hRely.chainClock, hCached]
    have hWithin : ∀ c ts, Op.updateListenerState cursor ratchet =
        .updateListenerState c (some ts) → Within config w1.chainClock seen ts := by
      intro c ts hOp
      obtain ⟨-, hTs⟩ := Op.updateListenerState.inj hOp
      rw [← hClock]
      exact hRatchet.within ts hTs
    -- A write either has its effect and says so, or fails and has none.
    cases choice with
    | ok =>
      obtain ⟨rfl, rfl⟩ := Prod.mk.inj (Option.some.inj hExec)
      refine ⟨seen, ⟨fun _ hNow => .inl hNow, hWithin, ?_, .inr ⟨cursor, rfl⟩⟩, ?_⟩
      · rw [← hClock]
        exact hRatchet.forward
      · exact fun w3 hRely1 w4 hRely2 =>
          ((SameState.chainClock hRely2).trans (SameState.chainClock hRely1)).symm
    | fail =>
      obtain ⟨rfl, rfl⟩ := Prod.mk.inj (Option.some.inj hExec)
      refine ⟨seen, ⟨fun _ hNow => .inl hNow, hWithin, .refl _, .inl rfl⟩, ?_⟩
      exact fun w3 hRely1 w4 hRely2 =>
        hClock.trans ((SameState.chainClock hRely2).trans (SameState.chainClock hRely1)).symm
    | lost => exact hKnown.elim
    | _ => cases hExec
  · exact fun w' hRely => hCached.trans hRely.chainClock.symm

theorem keeps_commitPage (hBypass : config.bypassChainClockDefenses = false)
    {memory : ListenerMemory} {unapplied : List IndexingAgreementId} {newCursor : Cursor}
    {newTs : Option Nat} (hMemory : memory.lastPersistedTimestamp = w.chainClock) :
    Keeps config w seen (commitPage config memory unapplied newCursor newTs) fun r _ w' =>
      r.1.lastPersistedTimestamp = w'.chainClock := by
  refine Prog.Meets.bind SameState.refl (keeps_nowSecs.mono ?_)
  rintro now seen1 w1 ⟨-, hClock1⟩
  refine Prog.Meets.bind SameState.refl ((keeps_ratchetTimestamp hBypass).mono ?_)
  rintro ratchet seen2 w2 ⟨hRatchet, hClock2⟩
  refine Prog.Meets.bind SameState.refl
    ((keeps_of_leavesState (leavesState_of_reconciling minor_raiseHoldAlert.reconciling)).mono ?_)
  rintro _ seen3 w3 ⟨rfl, hClock3⟩
  have hCached : memory.lastPersistedTimestamp = w3.chainClock := by
    rw [hClock3, hClock2, hClock1, hMemory]
  refine Prog.Meets.bind SameState.refl ((keeps_persistState hCached hRatchet).mono ?_)
  intro persisted seen4 w4 hPersisted w5 hRely
  exact hPersisted.trans hRely.chainClock.symm

theorem keeps_drainPages (hBypass : config.bypassChainClockDefenses = false) (remaining : Nat)
    {since : Cursor} {pinned : Option Nat} {memory : ListenerMemory} {outcome : DrainOutcome}
    (hMemory : memory.lastPersistedTimestamp = w.chainClock) :
    Keeps config w seen (drainPages config remaining since pinned memory outcome) fun r _ w' =>
      r.1.lastPersistedTimestamp = w'.chainClock := by
  induction remaining generalizing since pinned memory outcome w seen with
  | zero => exact fun w' hRely => hMemory.trans hRely.chainClock.symm
  | succ remaining ih =>
    refine Prog.Meets.bind SameState.refl
      ((keeps_of_leavesState leavesState_getChangedAgreements).mono ?_)
    rintro (_ | page) seen1 w1 ⟨-, hClock1⟩
    · exact fun w' hRely => hMemory.trans (hClock1.symm.trans hRely.chainClock.symm)
    dsimp only
    generalize hMemory1 : (if pinned.isNone = true then
      noteHead { memory with consecutiveFailures := 0 } page.latestBlock
      else { memory with consecutiveFailures := 0 }) = memory1
    have hSame : memory1.lastPersistedTimestamp = memory.lastPersistedTimestamp := by
      rw [← hMemory1]
      split <;> rfl
    refine Prog.Meets.bind SameState.refl
      ((keeps_of_leavesState (leavesState_of_reconciling reconciling_reconcilePage)).mono ?_)
    rintro report seen2 w2 ⟨-, hClock2⟩
    have hCached : ({ memory1 with liveChecks := report.liveChecks } :
        ListenerMemory).lastPersistedTimestamp = w2.chainClock := by
      change memory1.lastPersistedTimestamp = _
      rw [hSame, hMemory, hClock2, hClock1]
    split
    · exact fun w' hRely => hCached.trans hRely.chainClock.symm
    · refine Prog.Meets.bind SameState.refl ((keeps_commitPage hBypass hCached).mono ?_)
      rintro ⟨memory3, advanced⟩ seen3 w3 hMemory3
      dsimp only at hMemory3 ⊢
      split
      · exact fun w' hRely => hMemory3.trans hRely.chainClock.symm
      · exact ih hMemory3

theorem keeps_drainOnce (hBypass : config.bypassChainClockDefenses = false)
    {memory : ListenerMemory} (hMemory : memory.lastPersistedTimestamp = w.chainClock) :
    Keeps config w seen (drainOnce config memory) fun r _ w' =>
      r.1.lastPersistedTimestamp = w'.chainClock := by
  unfold drainOnce
  exact keeps_drainPages hBypass _ hMemory

end Writes

section Runs

variable {config : Config} {w w' : World} {tr : List (Action World Op)}

/-- The time is no later than the tolerance lets it be after a reading in one of the drains. -/
def Told (config : Config) (drains : List (List (Action World Op))) (ts : Nat) : Prop :=
  ∃ tr ∈ drains, ∃ now, ReadClock tr now ∧ ts ≤ now + config.chainTsDriftToleranceSecs

/-- What a call of the drain `tr` does to the clock. -/
structure Advances (config : Config) (tr : List (Action World Op)) (e : Action World Op) :
    Prop where
  forward : NotBehind e.before.chainClock e.after.chainClock
  writes : ∀ cursor ts, e.op = .updateListenerState cursor (some ts) →
    (∃ old ∈ e.before.chainClock, ts ≤ old) ∨ Told config [tr] ts
  clock : e.after.chainClock = e.before.chainClock ∨
    ∃ cursor, e.op = .updateListenerState cursor e.after.chainClock

theorem advances_of_runs (hBypass : config.bypassChainClockDefenses = false)
    {memory : ListenerMemory} (hMemory : memory.lastPersistedTimestamp = w.chainClock)
    {out : Option (ListenerMemory × Except Unit DrainOutcome)}
    (run : (drainOnce config memory).Runs (World.Performs WritesKnown) SameState w tr out w') :
    ∀ e ∈ tr, Advances config tr e := by
  have hKeeps : Keeps config w [] (drainOnce config memory) _ := keeps_drainOnce hBypass hMemory
  have hActions := hKeeps.actions
    (fun seen tr seen' => ∀ now ∈ seen', now ∈ seen ∨ ReadClock tr now)
    (fun _ _ _ hNow => .inl hNow) ?_ run
  · intro e he
    obtain ⟨seen, seen', hSeen, hRatchets⟩ := hActions e he
    refine ⟨hRatchets.forward, fun cursor ts hOp => ?_, hRatchets.clock⟩
    rcases hRatchets.writes cursor ts hOp with hOld | ⟨now, hNow, hLe⟩
    · exact .inl hOld
    · have hRead : ReadClock tr now := (hSeen now hNow).resolve_left List.not_mem_nil
      exact .inr ⟨tr, List.mem_singleton.mpr rfl, now, hRead, hLe⟩
  · intro e tr seen seen' seen1 hRatchets hFollows now hNow
    rcases hFollows now hNow with hSeen | hRead
    · rcases hRatchets.readings now hSeen with hOld | ⟨hOp, hClock⟩
      · exact .inl hOld
      · exact .inr ⟨e, List.mem_cons_self, hOp, hClock⟩
    · exact .inr (hRead.mono (List.subset_cons_self _ _))

namespace Clockwork

variable {c c' : Clockwork}

/-- The listener knows what is persisted, which a reading of the wall clock allowed. -/
structure Sound (config : Config) (c : Clockwork) : Prop where
  memory : c.memory.lastPersistedTimestamp = c.world.chainClock
  clock : ∀ ts ∈ c.world.chainClock, Told config c.drains ts
  drains : ∀ tr ∈ c.drains, ∀ e ∈ tr, Advances config tr e

end Clockwork

theorem startingMemory_clock :
    (w.startingMemory config).lastPersistedTimestamp = w.chainClock := by
  unfold World.startingMemory World.chainClock
  split <;> rename_i hState <;> rw [hState] <;> rfl

theorem Told.mono {drains drains' : List (List (Action World Op))} {ts : Nat}
    (h : Told config drains ts) (hSub : drains ⊆ drains') : Told config drains' ts := by
  obtain ⟨tr, hTr, hNow⟩ := h
  exact ⟨tr, hSub hTr, hNow⟩

theorem clock_of_runs {α : Type} {p : Act α} {out : Option α}
    {drains : List (List (Action World Op))}
    (run : p.Runs (World.Performs WritesKnown) SameState w tr out w')
    (hAdvances : ∀ e ∈ tr, Advances config tr e)
    (hClock : ∀ ts ∈ w.chainClock, Told config drains ts) :
    NotBehind w.chainClock w'.chainClock ∧
      ∀ ts ∈ w'.chainClock, Told config (drains ++ [tr]) ts := by
  constructor
  · have hTrans : ∀ w1 w2 w3 : World, NotBehind w1.chainClock w2.chainClock →
        NotBehind w2.chainClock w3.chainClock → NotBehind w1.chainClock w3.chainClock :=
      fun _ _ _ => NotBehind.trans
    refine run.reached hTrans (fun w1 w2 h => ?_) fun e he => (hAdvances e he).forward
    rw [SameState.chainClock h]
    exact .refl _
  · have hKept : (∀ ts ∈ w.chainClock, Told config (drains ++ [tr]) ts) →
        ∀ ts ∈ w'.chainClock, Told config (drains ++ [tr]) ts := by
      refine run.reached (R := fun w w' => (∀ ts ∈ w.chainClock, Told config (drains ++ [tr]) ts) →
        ∀ ts ∈ w'.chainClock, Told config (drains ++ [tr]) ts) (fun _ _ _ h h' h1 => h' (h h1))
        (fun w1 w2 h => ?_) fun e he hBefore ts hTs => ?_
      · rw [SameState.chainClock h]
        exact id
      · rcases (hAdvances e he).clock with hSame | ⟨cursor, hOp⟩
        · exact hBefore ts (hSame ▸ hTs)
        · rw [show e.after.chainClock = some ts from hTs] at hOp
          rcases (hAdvances e he).writes cursor ts hOp with ⟨old, hOld, hLe⟩ | hTold
          · obtain ⟨tr', hTr', now, hRead, hLe'⟩ := hBefore old hOld
            exact ⟨tr', hTr', now, hRead, hLe.trans hLe'⟩
          · exact hTold.mono (List.subset_append_right _ _)
    exact hKept fun ts hTs => (hClock ts hTs).mono (List.subset_append_left _ _)

theorem Clockwork.Sound.step {c c' : Clockwork} (h : c.Sound config)
    (hBypass : config.bypassChainClockDefenses = false) (hStep : c.Step config WritesKnown c') :
    c'.Sound config ∧ NotBehind c.world.chainClock c'.world.chainClock := by
  have hDrains : ∀ tr, (∀ e ∈ tr, Advances config tr e) →
      ∀ tr' ∈ c.drains ++ [tr], ∀ e ∈ tr', Advances config tr' e := by
    intro tr hTr tr' hMem
    rcases List.mem_append.mp hMem with hOld | hNew
    · exact h.drains tr' hOld
    · obtain rfl := List.mem_singleton.mp hNew
      exact hTr
  cases hStep with
  | drain run =>
    have hAdvances := advances_of_runs hBypass h.memory run
    obtain ⟨hForward, hTold⟩ := clock_of_runs run hAdvances h.clock
    have hKeeps : Keeps config c.world [] (drainOnce config c.memory) _ :=
      keeps_drainOnce hBypass h.memory
    obtain ⟨-, hPost⟩ := hKeeps.ends (fun _ _ _ _ => trivial) (fun _ _ _ _ _ _ => trivial) run
      trivial
    obtain ⟨_, hMemory⟩ := hPost _ rfl
    exact ⟨⟨hMemory, hTold, hDrains _ hAdvances⟩, hForward⟩
  | restart run =>
    have hAdvances := advances_of_runs hBypass h.memory run
    obtain ⟨hForward, hTold⟩ := clock_of_runs run hAdvances h.clock
    exact ⟨⟨startingMemory_clock, hTold, hDrains _ hAdvances⟩, hForward⟩
  | change hSame =>
    have hClock := hSame.chainClock
    refine ⟨⟨h.memory.trans hClock.symm, fun ts hTs => h.clock ts (hClock ▸ hTs), h.drains⟩, ?_⟩
    rw [hClock]
    exact .refl _

theorem Clockwork.Sound.reaches {c c' : Clockwork} (h : c.Sound config)
    (hBypass : config.bypassChainClockDefenses = false)
    (hRun : Clockwork.Reaches config WritesKnown c c') :
    c'.Sound config ∧ NotBehind c.world.chainClock c'.world.chainClock := by
  induction hRun with
  | refl => exact ⟨h, .refl _⟩
  | tail _ hStep ih =>
    obtain ⟨hSound, hForward⟩ := ih
    obtain ⟨hSound', hForward'⟩ := hSound.step hBypass hStep
    exact ⟨hSound', hForward.trans hForward'⟩

theorem Clockwork.Unset.sound {c : Clockwork} (h : c.Unset config) : c.Sound config where
  memory := by
    rw [h.memory]
    exact startingMemory_clock
  clock := by
    rw [h.clock]
    exact nofun
  drains := by
    rw [h.drains]
    exact nofun

def Selected (tr : List (Action World Op)) (row : AgreementRow) : Prop :=
  ∃ e ∈ tr, ∃ batchSize chainTimestamp id,
    e.op = .select (.expiredCreated batchSize chainTimestamp) ∧ e.before.row id = some row ∧
    (AgreementQuery.expiredCreated batchSize chainTimestamp).selects e.before.now
      e.before.requests id row = true

theorem onlyOps_expireEach {agreements : List IndexingAgreement} :
    (Expiration.expireEach agreements).OnlyOps fun o => ∀ query, o ≠ .select query := by
  induction agreements with
  | nil => exact .pure _
  | cons agreement rest ih =>
    refine .ask nofun fun stop => ?_
    split
    · exact .pure _
    · refine .bind ?_ fun _ => ih
      refine .ask nofun fun r => ?_
      split
      · exact .pure _
      · refine .ask nofun fun _ => .bind (.perform nofun) fun r => ?_
        split
        · exact .ask nofun fun _ => .pure _
        · exact .pure _

theorem selected_of_scan {rely : World → World → Prop} {out : Option Unit} {row : AgreementRow}
    (run : (Expiration.scan config).Runs (World.Performs fun _ _ _ => True) rely w tr out w')
    (hSelected : Selected tr row) : ∃ e ∈ tr.head?, ∃ ts ∈ e.before.chainClock,
      row.terms.deadline + config.expirationGraceSecs < ts := by
  obtain ⟨e, he, batchSize, threshold, id, hOp, -, hSelects⟩ := hSelected
  cases run with
  | cut _ => cases he
  | @op _ _ _ w1 w2 _ r tr _ hRely hPerforms rest =>
    obtain ⟨choice, -, hExec⟩ := hPerforms
    rcases List.mem_cons.mp he with rfl | he
    · cases hOp
    refine ⟨_, rfl, ?_⟩
    have hGoesOn : ∃ cursor ts, r = .ok (some (cursor, some ts)) := by
      rcases r with err | _ | ⟨cursor, _ | ts⟩
      · cases rest <;> cases he
      · cases rest <;> cases he
      · cases rest <;> cases he
      · exact ⟨cursor, ts, rfl⟩
    obtain ⟨cursor, ts, rfl⟩ := hGoesOn
    obtain ⟨hState, -⟩ := registryRead_ok hExec
    have hOnly : ∀ e' ∈ tr, ∀ batchSize threshold,
        e'.op = .select (.expiredCreated batchSize threshold) →
        threshold = ts - config.expirationGraceSecs := by
      refine Prog.Runs.onlyOps (P := fun o => ∀ batchSize threshold,
        o = .select (.expiredCreated batchSize threshold) →
        threshold = ts - config.expirationGraceSecs) ?_ rest
      change (Registry.listAgreements (.expiredCreated config.expirationBatchSize
        (ts - config.expirationGraceSecs)) >>= _).OnlyOps _
      refine .bind (.bind (.perform ?_) fun r => ?_) fun r => ?_
      · intro batchSize threshold hSame
        cases hSame
        rfl
      · split <;> exact .pure _
      · split
        · exact .pure _
        · refine Prog.OnlyOps.mono (fun o ho batchSize threshold hSame => ?_) onlyOps_expireEach
          exact absurd hSame (ho _)
    refine ⟨ts, by rw [World.chainClock, ← hState]; rfl, ?_⟩
    obtain rfl := hOnly e he batchSize threshold hOp
    simp only [AgreementQuery.selects, Bool.and_eq_true, decide_eq_true_eq] at hSelects
    have hLe := asI64_le (ts - config.expirationGraceSecs)
    omega

/-- Where no write of the listener's state takes effect that is reported to have failed, the
persisted chain time never goes back, each time written is at most the one persisted or as far
ahead of a reading of the wall clock in its drain as tolerated, and so a scan, which goes by the
time it reads, selects only agreements whose deadline and grace such a reading is past. -/
theorem expiration_clock_ratchets (hBypass : config.bypassChainClockDefenses = false)
    {c₀ c c' : Clockwork} (hStart : c₀.Unset config)
    (hRun : Clockwork.Reaches config WritesKnown c₀ c)
    (hRun' : Clockwork.Reaches config WritesKnown c c') :
    NotBehind c.world.chainClock c'.world.chainClock ∧
    (∀ tr ∈ c.drains, ∀ e ∈ tr, NotBehind e.before.chainClock e.after.chainClock ∧
      ∀ cursor ts, e.op = .updateListenerState cursor (some ts) →
        (∃ old ∈ e.before.chainClock, ts ≤ old) ∨
          ∃ now, ReadClock tr now ∧ ts ≤ now + config.chainTsDriftToleranceSecs) ∧
    ∀ w tr out w', (Expiration.scan config).Runs (World.Performs fun _ _ _ => True)
        (fun _ _ => True) w tr out w' →
      (∀ e ∈ tr.head?, e.before.listenerState = c.world.listenerState) →
      ∀ row, Selected tr row → ∃ drain ∈ c.drains, ∃ now, ReadClock drain now ∧
        row.terms.deadline + config.expirationGraceSecs ≤
          now + config.chainTsDriftToleranceSecs := by
  obtain ⟨hSound, -⟩ := hStart.sound.reaches hBypass hRun
  obtain ⟨-, hForward⟩ := hSound.reaches hBypass hRun'
  refine ⟨hForward, fun tr hTr e he => ?_, fun w tr out w' run hReads row hSelected => ?_⟩
  · have hAdvances := hSound.drains tr hTr e he
    refine ⟨hAdvances.forward, fun cursor ts hOp => ?_⟩
    refine (hAdvances.writes cursor ts hOp).imp_right ?_
    rintro ⟨tr', hTr', hNow⟩
    obtain rfl := List.mem_singleton.mp hTr'
    exact hNow
  · obtain ⟨e, he, ts, hTs, hPast⟩ := selected_of_scan run hSelected
    have hClock : e.before.chainClock = c.world.chainClock :=
      SameState.chainClock (hReads e he)
    obtain ⟨drain, hDrain, now, hRead, hLe⟩ := hSound.clock ts (hClock ▸ hTs)
    exact ⟨drain, hDrain, now, hRead, by omega⟩

end Runs

section Sample

/-- The defences of the clock are on. -/
def guardedConfig : Config := { sampleConfig with bypassChainClockDefenses := false }

/-- The listener starts at 1000, with agreement 10 on offer until 15. -/
def clockStart : Clockwork where
  memory := { brokerBackoff := 1 }
  world := { offeredWorld with now := 1000 }
  drains := []

/-- The calls of a drain of an empty page whose head is at `ts`, up to the write of the state. -/
def emptyPage (ts : Nat) (write : Choice) : List Choice :=
  [.page ⟨[], 0, some ts⟩, .ok, .rows [], .ok, .ok, .ok, write]

/-- The listener after a drain whose calls come out as given, with the memory it leaves. -/
def Clockwork.played (allow : World → Op → Choice → Prop) [∀ w o c, Decidable (allow w o c)]
    (c : Clockwork) (choices : List Choice) (memory : ListenerMemory) : Clockwork where
  memory := memory
  world := ((drainOnce guardedConfig c.memory).play (World.execAllowed allow) c.world choices).2.2
  drains := c.drains ++
    [((drainOnce guardedConfig c.memory).play (World.execAllowed allow) c.world choices).1]

theorem Clockwork.Step.play {allow : World → Op → Choice → Prop}
    [∀ w o c, Decidable (allow w o c)] {c : Clockwork} {choices : List Choice}
    {memory : ListenerMemory} {result : Except Unit DrainOutcome}
    (hOut : ((drainOnce guardedConfig c.memory).play (World.execAllowed allow) c.world
      choices).2.1 = some (memory, result)) :
    c.Step guardedConfig allow (c.played allow choices memory) := by
  have hRun : (drainOnce guardedConfig c.memory).Runs (World.Performs allow) SameState c.world
      _ _ _ :=
    Prog.runs_play SameState.refl
      (fun w o choice r w' (h : w.execAllowed allow o choice = some (r, w')) =>
        performs_of_execAllowed h)
      (drainOnce guardedConfig c.memory) c.world choices
  rw [hOut] at hRun
  exact .drain hRun

theorem clockStart_unset : clockStart.Unset guardedConfig := ⟨rfl, rfl, rfl⟩

/-- The memory a drain of an empty page leaves, with the time it knows to be persisted. -/
def drainedMemory (ts : Option Nat) : ListenerMemory :=
  { cursor := .atBlock 1, lastPersistedTimestamp := ts, brokerBackoff := 1 }

/-- A drain persists the time 200, and a scan selects agreement 10 by it. -/
theorem expiration_clock_at_200 :
    let c := clockStart.played WritesKnown (emptyPage 200 .ok) (drainedMemory (some 200))
    c.world.chainClock = some 200 ∧
      ∃ drain ∈ c.drains, ∃ now, ReadClock drain now ∧ 15 + 0 ≤ now + 0 := by
  intro c
  have hOut : ((drainOnce guardedConfig clockStart.memory).play (World.execAllowed WritesKnown)
      clockStart.world (emptyPage 200 .ok)).2.1 =
      some (drainedMemory (some 200), .ok ⟨1, 0, 0, 0, false⟩) := by
    decide +kernel
  have hRun : Clockwork.Reaches guardedConfig WritesKnown clockStart c := .single (.play hOut)
  have hScan : (Expiration.scan guardedConfig).Runs (World.Performs fun _ _ _ => True)
      (fun _ _ => True) c.world _ _ _ :=
    Prog.runs_play (fun _ => trivial)
      (fun w o choice r w' (h : w.exec o choice = some (r, w')) => ⟨choice, trivial, h⟩)
      (Expiration.scan guardedConfig) c.world [.ok, .rows [10]]
  obtain ⟨-, -, hSelects⟩ := expiration_clock_ratchets rfl clockStart_unset hRun .refl
  refine ⟨by decide +kernel, hSelects c.world _ _ _ hScan (fun e he => ?_) sampleAgreement ?_⟩
  · obtain rfl := Option.some.inj he
    rfl
  · exact ⟨_, List.mem_cons_of_mem _ List.mem_cons_self, 10, 200, 10, rfl, by decide +kernel,
      by decide +kernel⟩

/-- A write of the time 200 takes effect but is reported to have failed; the next drain does not
know of it, and writes 150. -/
theorem clock_goes_back : ∃ c c',
    Clockwork.Reaches guardedConfig (fun _ _ _ => True) clockStart c ∧
    Clockwork.Reaches guardedConfig (fun _ _ _ => True) c c' ∧
    c.world.chainClock = some 200 ∧ c'.world.chainClock = some 150 := by
  have hOut : ((drainOnce guardedConfig clockStart.memory).play
      (World.execAllowed fun _ _ _ => True) clockStart.world (emptyPage 200 .lost)).2.1 =
      some (drainedMemory none, .ok ⟨1, 0, 0, 0, false⟩) := by
    decide +kernel
  have hOut' : ((drainOnce guardedConfig (drainedMemory none)).play
      (World.execAllowed fun _ _ _ => True)
      (clockStart.played (fun _ _ _ => True) (emptyPage 200 .lost) (drainedMemory none)).world
      (emptyPage 150 .ok)).2.1 =
      some (drainedMemory (some 150), .ok ⟨1, 0, 0, 0, false⟩) := by
    decide +kernel
  exact ⟨_, _, .single (.play hOut), .single (.play hOut'), by decide +kernel, by decide +kernel⟩

end Sample

end Listener

end Dipper
