import Dipper.Liveness.Breaker

/-! The grace the breaker grants is bounded: over any sequence of cycles the spans it stores lie
apart, one trip holds for a limited time, and what it leaves out of an agreement's time without
progress is no more than the time that passed.  Spans are dropped once they can no longer change a
decision, which a breaker that keeps them all shows. -/

namespace Dipper

namespace Liveness

/-- Spans that lie apart, in order. -/
def Apart (held : List HeldSpan) : Prop :=
  held.Pairwise fun s t => s.stop ≤ t.start ∧ s.start < t.start

section Spans

variable {held : List HeldSpan} {at' now : Int}

theorem HeldSpan.since_nonneg (span : HeldSpan) (at' : Int) : 0 ≤ span.since at' := by
  unfold HeldSpan.since
  omega

theorem heldSince_cons (span : HeldSpan) (held : List HeldSpan) (at' : Int) :
    heldSince (span :: held) at' = span.since at' + heldSince held at' := by
  simp [heldSince]

theorem heldSince_nonneg (held : List HeldSpan) (at' : Int) : 0 ≤ heldSince held at' := by
  induction held with
  | nil => simp [heldSince]
  | cons span held ih =>
    have hSpan := span.since_nonneg at'
    rw [heldSince_cons]
    omega

/-- Spans that begin after `later` hold as much since `later` as since any time before it. -/
theorem heldSince_congr {later : Int} (hLater : at' ≤ later)
    (hAfter : ∀ span ∈ held, later ≤ span.start) : heldSince held at' = heldSince held later := by
  induction held with
  | nil => rfl
  | cons span held ih =>
    have hSpan : later ≤ span.start := hAfter span List.mem_cons_self
    rw [heldSince_cons, heldSince_cons, ih fun t ht => hAfter t (List.mem_cons_of_mem _ ht)]
    unfold HeldSpan.since
    omega

/-- Spans that lie apart hold no longer than the time that passes. -/
theorem heldSince_le (hApart : Apart held) (hWithin : ∀ span ∈ held, span.stop ≤ now)
    (hAt : at' ≤ now) : heldSince held at' ≤ now - at' := by
  induction held generalizing at' with
  | nil => simp only [heldSince, List.map_nil, List.sum_nil]; omega
  | cons span held ih =>
    obtain ⟨hFirst, hRest⟩ := List.pairwise_cons.mp hApart
    have hStop : span.stop ≤ now := hWithin span List.mem_cons_self
    rw [heldSince_cons]
    -- The rest holds from the end of the first span on, where that is later than `at'`.
    by_cases hPast : span.stop ≤ at'
    · have hNone : span.since at' = 0 := by
        unfold HeldSpan.since
        omega
      have hLe := ih hRest (fun t ht => hWithin t (List.mem_cons_of_mem _ ht)) hAt
      omega
    · have hSame : heldSince held at' = heldSince held span.stop :=
        heldSince_congr (by omega) fun t ht => (hFirst t ht).1
      have hLe := ih hRest (fun t ht => hWithin t (List.mem_cons_of_mem _ ht)) hStop
      have hSpan : span.since at' ≤ span.stop - at' := by
        unfold HeldSpan.since
        omega
      omega

theorem heldSince_filter {keep : HeldSpan → Bool}
    (hDropped : ∀ span ∈ held, keep span = false → span.stop ≤ at') :
    heldSince (held.filter keep) at' = heldSince held at' := by
  induction held with
  | nil => rfl
  | cons span held ih =>
    have hRest := ih fun t ht => hDropped t (List.mem_cons_of_mem _ ht)
    rw [heldSince_cons]
    cases hKeep : keep span with
    | true => rw [List.filter_cons_of_pos hKeep, heldSince_cons, hRest]
    | false =>
      have hStop : span.stop ≤ at' := hDropped span List.mem_cons_self hKeep
      have hNone : span.since at' = 0 := by
        unfold HeldSpan.since
        omega
      rw [List.filter_cons_of_neg (by simp [hKeep]), hRest]
      omega

end Spans

namespace UnreachableBreaker

variable {config : CheckerConfig} {retain : Int → HeldSpan → Bool} {b : UnreachableBreaker}
  {c : Cycle}

theorem noteCycle_cases (config : CheckerConfig) (b : UnreachableBreaker) (c : Cycle) :
    (b.noteCycle config c).held = b.held ∧
      ((b.noteCycle config c).trippedSince = b.trippedSince ∨
        (b.noteCycle config c).trippedSince = none ∨
        config.trips c.checked c.unreachable = true ∧ b.trippedSince = none ∧
          (b.noteCycle config c).trippedSince = some c.now) := by
  unfold noteCycle
  split
  · rename_i hTrips
    unfold noteTrip
    dsimp only
    split
    · rename_i hNone
      exact ⟨rfl, .inr (.inr ⟨hTrips, Option.isNone_iff_eq_none.mp hNone, rfl⟩)⟩
    · exact ⟨rfl, .inl rfl⟩
  · split
    · unfold noteQuietCycle
      dsimp only
      split
      · exact ⟨rfl, .inl rfl⟩
      · exact ⟨rfl, .inr (.inl rfl)⟩
    · exact ⟨rfl, .inl rfl⟩

theorem reportHold_keeps (b : UnreachableBreaker) (now : Int) :
    (b.reportHold now).held = b.held ∧ (b.reportHold now).trippedSince = b.trippedSince := by
  unfold reportHold
  split <;> exact ⟨rfl, rfl⟩

theorem giveUp_keeps (b : UnreachableBreaker) (now hold : Int) :
    (b.giveUp now hold).held = b.held ∧ (b.giveUp now hold).trippedSince = b.trippedSince := by
  unfold giveUp
  split
  · exact ⟨rfl, rfl⟩
  · split <;> exact ⟨rfl, rfl⟩

theorem trippedSince_evaluateRetaining :
    (b.evaluateRetaining retain config c).2.trippedSince = (b.noteCycle config c).trippedSince := by
  unfold evaluateRetaining
  dsimp only
  split
  · rfl
  · split
    · exact (giveUp_keeps _ _ _).2
    · exact (reportHold_keeps _ _).2

theorem evaluateRetaining_cases (retain : Int → HeldSpan → Bool) (config : CheckerConfig)
    (b : UnreachableBreaker) (c : Cycle) :
    (∃ since, (b.noteCycle config c).trippedSince = some since ∧ c.now - since ≤ maxHold config ∧
        (b.evaluateRetaining retain config c).1 = .hold ∧
        (b.evaluateRetaining retain config c).2.held =
          holdSpan (b.held.filter (retain c.now)) since c.now) ∨
      ((∀ since ∈ (b.noteCycle config c).trippedSince, maxHold config < c.now - since) ∧
        (b.evaluateRetaining retain config c).1 =
          .judge (b.held.filter (retain c.now)) (maxHold config) ∧
        (b.evaluateRetaining retain config c).2.held = b.held.filter (retain c.now)) := by
  have hHeld := (noteCycle_cases config b c).1
  unfold evaluateRetaining
  dsimp only
  rw [hHeld]
  split
  · rename_i hNone
    exact .inr ⟨by rw [hNone]; exact nofun, rfl, rfl⟩
  · rename_i since hSince
    split
    · rename_i hLong
      refine .inr ⟨?_, rfl, (giveUp_keeps _ _ _).1⟩
      rw [hSince]
      intro since' hMem
      obtain rfl := Option.some.inj hMem
      exact hLong
    · rename_i hShort
      refine .inl ⟨since, hSince, by omega, rfl, ?_⟩
      exact congrArg (holdSpan · since c.now) (reportHold_keeps _ _).1

/-- The spans lie apart, none is past `now` or, but for that of the current trip, past its
beginning. -/
structure Ordered (b : UnreachableBreaker) (now : Int) : Prop where
  spans : Apart b.held
  within : ∀ span ∈ b.held, span.start ≤ span.stop ∧ span.stop ≤ now
  tripped : ∀ since ∈ b.trippedSince,
    since ≤ now ∧ ∀ span ∈ b.held, span.start = since ∨ span.stop ≤ since

theorem Ordered.mono {now now' : Int} (h : b.Ordered now) (hLe : now ≤ now') : b.Ordered now' where
  spans := h.spans
  within span hSpan := ⟨(h.within span hSpan).1, (h.within span hSpan).2.trans hLe⟩
  tripped since hSince := ⟨(h.tripped since hSince).1.trans hLe, (h.tripped since hSince).2⟩

theorem holdSpan_eq {held : List HeldSpan} {since now : Int} (hApart : Apart held)
    (hStart : ∀ span ∈ held, span.start ≤ span.stop)
    (hSince : ∀ span ∈ held, span.start = since ∨ span.stop ≤ since) :
    holdSpan held since now = held.filter (fun span => span.start ≠ since) ++ [⟨since, now⟩] := by
  rcases List.eq_nil_or_concat' held with rfl | ⟨init, last, rfl⟩
  · rfl
  have hLast : (init ++ [last]).getLast? = some last := List.getLast?_concat
  have hBefore : ∀ span ∈ init, span.start < last.start :=
    fun span hSpan => ((List.pairwise_append.mp hApart).2.2 span hSpan last (by simp)).2
  have hEnd : last.start = since ∨ last.stop ≤ since := hSince last (by simp)
  have hLen : last.start ≤ last.stop := hStart last (by simp)
  have hInit : init.filter (fun span => span.start ≠ since) = init := by
    refine List.filter_eq_self.mpr fun span hSpan => ?_
    have := hBefore span hSpan
    simp only [ne_eq, decide_not, Bool.not_eq_true', decide_eq_false_iff_not]
    omega
  unfold holdSpan
  rw [hLast, List.filter_append, hInit]
  dsimp only
  by_cases hSame : last.start = since
  · rw [if_pos hSame, List.dropLast_concat]
    simp [hSame]
  · rw [if_neg hSame]
    simp [hSame]

theorem Ordered.noteCycle (config : CheckerConfig) {now : Int} (h : b.Ordered now)
    (hLe : now ≤ c.now) :
    ∀ since ∈ (b.noteCycle config c).trippedSince,
      since ≤ c.now ∧ ∀ span ∈ b.held, span.start = since ∨ span.stop ≤ since := by
  intro since hSince
  rcases (noteCycle_cases config b c).2 with hSame | hNone | ⟨-, -, hNow⟩
  · exact (h.mono hLe).tripped since (hSame ▸ hSince)
  · rw [hNone] at hSince
    cases hSince
  · rw [hNow] at hSince
    obtain rfl := Option.some.inj hSince
    exact ⟨le_refl _, fun span hSpan => .inr ((h.within span hSpan).2.trans hLe)⟩

theorem Ordered.evaluateRetaining {now : Int} (h : b.Ordered now) (hLe : now ≤ c.now) :
    (b.evaluateRetaining retain config c).2.Ordered c.now := by
  have hTripped := h.noteCycle config hLe
  have hSub : b.held.filter (retain c.now) ⊆ b.held := List.filter_subset_self _
  have hApart : Apart (b.held.filter (retain c.now)) := h.spans.filter _
  rcases evaluateRetaining_cases retain config b c with
    ⟨since, hSince, -, -, hHeld⟩ | ⟨-, -, hHeld⟩
  · obtain ⟨hBegan, hSpans⟩ := hTripped since hSince
    rw [holdSpan_eq hApart (fun span hSpan => (h.within span (hSub hSpan)).1)
      fun span hSpan => hSpans span (hSub hSpan)] at hHeld
    have hOther : ∀ span ∈ (b.held.filter (retain c.now)).filter (fun s => s.start ≠ since),
        span.start ≤ span.stop ∧ span.stop ≤ since ∧ span.start < since := by
      intro span hSpan
      obtain ⟨hMem, hNe⟩ := List.mem_filter.mp hSpan
      have hNe : span.start ≠ since := by simpa using hNe
      have hLen := (h.within span (hSub hMem)).1
      have hStop := (hSpans span (hSub hMem)).resolve_left hNe
      omega
    constructor
    · rw [hHeld]
      refine List.pairwise_append.mpr ⟨hApart.filter _, List.pairwise_singleton _ _, ?_⟩
      intro span hSpan last hLast
      obtain rfl := List.mem_singleton.mp hLast
      exact (hOther span hSpan).2
    · rw [hHeld]
      intro span hSpan
      rcases List.mem_append.mp hSpan with hOld | hNew
      · have := hOther span hOld
        omega
      · obtain rfl := List.mem_singleton.mp hNew
        exact ⟨hBegan, le_refl _⟩
    · rw [hHeld, trippedSince_evaluateRetaining, hSince]
      intro since' hMem
      obtain rfl := Option.some.inj hMem
      refine ⟨hBegan, fun span hSpan => ?_⟩
      rcases List.mem_append.mp hSpan with hOld | hNew
      · exact .inr (hOther span hOld).2.1
      · obtain rfl := List.mem_singleton.mp hNew
        exact .inl rfl
  · constructor
    · rw [hHeld]
      exact hApart
    · rw [hHeld]
      exact fun span hSpan => (h.mono hLe).within span (hSub hSpan)
    · rw [hHeld, trippedSince_evaluateRetaining]
      exact fun since hSince => ⟨(hTripped since hSince).1,
        fun span hSpan => (hTripped since hSince).2 span (hSub hSpan)⟩

def afterCycles (evaluate : UnreachableBreaker → Cycle → UnreachablePolicy × UnreachableBreaker) :
    List Cycle → UnreachableBreaker
  | [] => {}
  | c :: past => (evaluate (afterCycles evaluate past) c).2

/-- The times of the cycles, of which the latest is first, do not decrease. -/
def InTime (cycles : List Cycle) : Prop := cycles.Pairwise fun later earlier => earlier.now ≤ later.now

/-- A breaker that keeps every span. -/
def evaluateKeeping (config : CheckerConfig) (b : UnreachableBreaker) (c : Cycle) :
    UnreachablePolicy × UnreachableBreaker :=
  b.evaluateRetaining (fun _ _ => true) config c

theorem ordered_afterCycles {past : List Cycle} {now : Int} (hTimes : InTime past)
    (hNow : ∀ c ∈ past, c.now ≤ now) :
    (afterCycles (evaluateRetaining retain config) past).Ordered now := by
  induction past generalizing now with
  | nil => exact ⟨List.Pairwise.nil, nofun, nofun⟩
  | cons c past ih =>
    obtain ⟨hLast, hRest⟩ := List.pairwise_cons.mp hTimes
    exact ((ih hRest hLast).evaluateRetaining (le_refl _)).mono (hNow c List.mem_cons_self)

/-- The current trip began at `since`, in a cycle of those given, and has gone on from there. -/
def TripSince (config : CheckerConfig) (since : Int) (cycles : List Cycle) : Prop :=
  ∃ later c earlier, cycles = later ++ c :: earlier ∧ c.now = since ∧
    config.trips c.checked c.unreachable = true ∧
    (afterCycles (evaluate config) earlier).trippedSince = none ∧
    ∀ recent, recent <:+ later →
      (afterCycles (evaluate config) (recent ++ c :: earlier)).trippedSince = some since

theorem tripSince_of_trippedSince {cycles : List Cycle} {since : Int}
    (h : (afterCycles (evaluate config) cycles).trippedSince = some since) :
    TripSince config since cycles := by
  induction cycles with
  | nil => cases h
  | cons c past ih =>
    have hNote := h
    rw [afterCycles, evaluate, trippedSince_evaluateRetaining] at hNote
    rcases (noteCycle_cases config (afterCycles (evaluate config) past) c).2 with
      hSame | hNone | ⟨hTrips, hClear, hNow⟩
    · obtain ⟨later, c', earlier, hPast, hBegan, hTrips, hClear, hGoesOn⟩ :=
        ih (hSame.symm.trans hNote)
      refine ⟨c :: later, c', earlier, by rw [hPast]; rfl, hBegan, hTrips, hClear, ?_⟩
      intro recent hRecent
      rcases List.suffix_cons_iff.mp hRecent with rfl | hShorter
      · rw [List.cons_append, ← hPast]
        exact h
      · exact hGoesOn recent hShorter
    · rw [hNone] at hNote
      cases hNote
    · refine ⟨[], c, past, rfl, Option.some.inj (hNow.symm.trans hNote), hTrips, hClear, ?_⟩
      intro recent hRecent
      rw [List.suffix_nil.mp hRecent]
      exact h

/-- The breaker without the spans no longer recent at `now`. -/
def pruned (config : CheckerConfig) (now : Int) (b : UnreachableBreaker) : UnreachableBreaker :=
  { b with held := b.held.filter (recent config now) }

theorem noteCycle_held (held : List HeldSpan) :
    ({ b with held := held } : UnreachableBreaker).noteCycle config c =
      { b.noteCycle config c with held := held } := by
  unfold noteCycle noteTrip noteQuietCycle
  dsimp only
  split
  · split <;> rfl
  · split
    · split <;> rfl
    · rfl

theorem filter_recent {held : List HeldSpan} {now now' : Int} (hLe : now ≤ now') :
    (held.filter (recent config now)).filter (recent config now') =
      held.filter (recent config now') := by
  rw [List.filter_filter]
  refine List.filter_congr fun span _ => ?_
  simp only [recent, Bool.and_eq_left_iff_imp, decide_eq_true_eq]
  omega

theorem maxHold_pos (config : CheckerConfig) : 0 < maxHold config := by
  unfold maxHold nanosPerDay
  omega

theorem filter_holdSpan {held : List HeldSpan} {since now : Int} (hApart : Apart held)
    (hStart : ∀ span ∈ held, span.start ≤ span.stop)
    (hSince : ∀ span ∈ held, span.start = since ∨ span.stop ≤ since) :
    (holdSpan held since now).filter (recent config now) =
      holdSpan (held.filter (recent config now)) since now := by
  have hSub : held.filter (recent config now) ⊆ held := List.filter_subset_self _
  have hNew : recent config now ⟨since, now⟩ = true := by
    have := maxHold_pos config
    simp only [recent, decide_eq_true_eq]
    omega
  rw [holdSpan_eq hApart hStart hSince, holdSpan_eq (hApart.filter _)
    (fun span hSpan => hStart span (hSub hSpan)) fun span hSpan => hSince span (hSub hSpan),
    List.filter_append, List.filter_filter, List.filter_filter, List.filter_cons_of_pos hNew]
  simp only [Bool.and_comm, List.filter_nil]

end UnreachableBreaker

def UnreachablePolicy.pruned (config : CheckerConfig) (now : Int) :
    UnreachablePolicy → UnreachablePolicy
  | .hold => .hold
  | .judge held maxGrace => .judge (held.filter (UnreachableBreaker.recent config now)) maxGrace

namespace UnreachableBreaker

variable {config : CheckerConfig} {c : Cycle}

/-- A cycle of the breaker does what one that keeps every span does, but for the old spans. -/
theorem evaluate_pruned {all : UnreachableBreaker} {now : Int} (h : all.Ordered now)
    (hLe : now ≤ c.now) :
    (all.pruned config now).evaluate config c =
      ((all.evaluateKeeping config c).1.pruned config c.now,
        (all.evaluateKeeping config c).2.pruned config c.now) := by
  have hHeld := (noteCycle_cases config all c).1
  have hTripped := h.noteCycle config hLe
  unfold evaluate evaluateKeeping evaluateRetaining
  dsimp only
  rw [pruned, noteCycle_held]
  dsimp only
  rw [filter_recent hLe, hHeld]
  simp only [List.filter_true]
  generalize all.noteCycle config c = noted at hHeld hTripped ⊢
  obtain ⟨tripped, quiet, held, alerted⟩ := noted
  dsimp only at hHeld hTripped ⊢
  cases tripped with
  | none => rfl
  | some since =>
    dsimp only
    by_cases hLong : c.now - since > maxHold config
    · rw [if_pos hLong, if_pos hLong]
      unfold giveUp
      dsimp only
      split <;> rfl
    · have hSpans := (hTripped since rfl).2
      rw [if_neg hLong, if_neg hLong]
      simp only [(reportHold_keeps _ _).1, pruned, UnreachablePolicy.pruned]
      rw [filter_holdSpan h.spans (fun span hSpan => (h.within span hSpan).1) hSpans]
      unfold reportHold
      dsimp only
      split <;> rfl

theorem evaluate_afterCycles (config : CheckerConfig) {past : List Cycle} (hTimes : InTime (c :: past)) :
    (afterCycles (evaluate config) past).evaluate config c =
      (((afterCycles (evaluateKeeping config) past).evaluateKeeping config c).1.pruned config c.now,
        ((afterCycles (evaluateKeeping config) past).evaluateKeeping config c).2.pruned config
          c.now) := by
  induction past generalizing c with
  | nil =>
    have hEmpty : ({} : UnreachableBreaker).Ordered c.now := ⟨List.Pairwise.nil, nofun, nofun⟩
    exact evaluate_pruned hEmpty (le_refl _)
  | cons c' past ih =>
    obtain ⟨hLast, hRest⟩ := List.pairwise_cons.mp hTimes
    have hOrdered : (afterCycles (evaluateKeeping config) (c' :: past)).Ordered c'.now := by
      refine ordered_afterCycles hRest fun c'' hMem => ?_
      rcases List.mem_cons.mp hMem with rfl | hMem
      · exact le_refl _
      · exact (List.pairwise_cons.mp hRest).1 c'' hMem
    have hBefore : afterCycles (evaluate config) (c' :: past) =
        (afterCycles (evaluateKeeping config) (c' :: past)).pruned config c'.now :=
      congrArg Prod.snd (ih hRest)
    rw [hBefore]
    exact evaluate_pruned hOrdered (hLast c' List.mem_cons_self)

end UnreachableBreaker

section Decisions

open UnreachableBreaker

variable {config : CheckerConfig} {activeCounts : ActiveCounts} {agreement : Watched}
  {currentBlock : Option Nat} {now : Int}

theorem toleranceDuration_le (deploymentId : DeploymentId) :
    toleranceDuration deploymentId activeCounts config.maxToleranceDays ≤ maxHold config := by
  unfold toleranceDuration maxHold nanosPerDay
  dsimp only
  omega

theorem checkAgreement_judge_congr {held held' : List HeldSpan} {maxGrace : Int}
    (h : ∀ at' ∈ agreement.lastProgressAt,
      (toleranceDuration agreement.deploymentId activeCounts config.maxToleranceDays <
          now - (at' + min (heldSince held at') maxGrace) ↔
        toleranceDuration agreement.deploymentId activeCounts config.maxToleranceDays <
          now - (at' + min (heldSince held' at') maxGrace))) :
    checkAgreement config activeCounts agreement currentBlock (some (.judge held maxGrace)) now =
      checkAgreement config activeCounts agreement currentBlock (some (.judge held' maxGrace))
        now := by
  unfold checkAgreement decideLivenessAction
  dsimp only [UnreachablePolicy.progressClock, GT.gt]
  cases hAt : agreement.lastProgressAt with
  | none => rfl
  | some at' =>
    simp only [Option.map_some, Option.getD_some, h at' hAt]
    rfl

/-- A span that ended over a hold and the longest tolerance ago saves no agreement: one that had
stopped before its end is past the tolerance even with the most grace. -/
theorem pruned_past_iff {held : List HeldSpan} {then' at' tolerance : Int}
    (hThen : then' ≤ now) (hTolerance : tolerance ≤ maxHold config) :
    tolerance < now - (at' + min (heldSince (held.filter (recent config then')) at')
        (maxHold config)) ↔
      tolerance < now - (at' + min (heldSince held at') (maxHold config)) := by
  by_cases hOld : ∀ span ∈ held, recent config then' span = false → span.stop ≤ at'
  · rw [heldSince_filter hOld]
  · simp only [not_forall, not_le] at hOld
    obtain ⟨span, -, hDropped, hAfter⟩ := hOld
    simp only [recent, decide_eq_false_iff_not] at hDropped
    constructor <;> intro <;> omega

theorem checkAgreement_pruned {policy : UnreachablePolicy} {then' : Int} (hThen : then' ≤ now)
    (hGrace : ∀ held maxGrace, policy = .judge held maxGrace → maxGrace = maxHold config) :
    checkAgreement config activeCounts agreement currentBlock
        (some (policy.pruned config then')) now =
      checkAgreement config activeCounts agreement currentBlock (some policy) now := by
  cases policy with
  | hold => rfl
  | judge held maxGrace =>
    obtain rfl := hGrace held maxGrace rfl
    exact checkAgreement_judge_congr fun at' _ =>
      pruned_past_iff hThen (toleranceDuration_le _)

theorem progressClock_bounds {held : List HeldSpan} {then' at' : Int} (hApart : Apart held)
    (hWithin : ∀ span ∈ held, span.stop ≤ then') (hAt : at' ≤ now) (hThen : then' ≤ now) :
    at' ≤ at' + min (heldSince held at') (maxHold config) ∧
      at' + min (heldSince held at') (maxHold config) ≤ now := by
  have hNonneg := heldSince_nonneg held at'
  have hHold := maxHold_pos config
  have hLe : heldSince held at' ≤ now - at' :=
    heldSince_le hApart (fun span hSpan => (hWithin span hSpan).trans hThen) hAt
  constructor <;> omega

/-- The most grace there is leaves an agreement that has been without progress for its tolerance
and a whole hold past its tolerance. -/
theorem checkAgreement_abandons (held : List HeldSpan) {block : Nat} {at' : Int}
    (hBlock : agreement.lastBlockHeight = some block) (hAt : agreement.lastProgressAt = some at')
    (hLong : toleranceDuration agreement.deploymentId activeCounts config.maxToleranceDays +
      maxHold config < now - at') :
    checkAgreement config activeCounts agreement none (some (.judge held (maxHold config))) now =
      .abandon := by
  have hPast : now - (at' + min (heldSince held at') (maxHold config)) >
      toleranceDuration agreement.deploymentId activeCounts config.maxToleranceDays := by
    omega
  unfold checkAgreement decideLivenessAction
  dsimp only [UnreachablePolicy.progressClock]
  rw [hBlock, hAt]
  simp only [Option.map_some, Option.getD_some, if_pos hPast]
  rfl

/-- Over any cycles whose times do not decrease: the spans stored lie apart; a trip holds no longer
than the maximum after it began; an unreachable indexer's agreement counts from no earlier than its
last progress and no later than the time of the check; dropping old spans changes no decision; and
a cycle that judges abandons an agreement that has been without progress for longer than its
tolerance and the maximum hold. -/
theorem breaker_grants_bounded_grace (config : CheckerConfig) (c : Cycle) (past : List Cycle)
    (hTimes : InTime (c :: past)) :
    Apart (afterCycles (evaluate config) (c :: past)).held ∧
    (((afterCycles (evaluate config) past).evaluate config c).1 = .hold →
      ∃ since, TripSince config since (c :: past) ∧ c.now - since ≤ maxHold config) ∧
    ∀ (activeCounts : ActiveCounts) (agreement : Watched) (now : Int), c.now ≤ now →
      (∀ at' ∈ agreement.lastProgressAt, at' ≤ now →
        ∃ clock ∈ ((afterCycles (evaluate config) past).evaluate config c).1.progressClock
          agreement.lastProgressAt, at' ≤ clock ∧ clock ≤ now) ∧
      (∀ currentBlock, checkAgreement config activeCounts agreement currentBlock
          (some ((afterCycles (evaluate config) past).evaluate config c).1) now =
        checkAgreement config activeCounts agreement currentBlock
          (some ((afterCycles (evaluateKeeping config) past).evaluateKeeping config c).1) now) ∧
      (((afterCycles (evaluate config) past).evaluate config c).1 ≠ .hold →
        agreement.lastBlockHeight.isSome = true → ∀ at' ∈ agreement.lastProgressAt,
          toleranceDuration agreement.deploymentId activeCounts config.maxToleranceDays +
            maxHold config < now - at' →
          checkAgreement config activeCounts agreement none
            (some ((afterCycles (evaluate config) past).evaluate config c).1) now = .abandon) := by
  obtain ⟨hLast, hRest⟩ := List.pairwise_cons.mp hTimes
  have hOrdered : (afterCycles (evaluate config) past).Ordered c.now :=
    ordered_afterCycles hRest hLast
  have hPruned := congrArg Prod.fst (evaluate_afterCycles config hTimes)
  have hKeeping : ∀ held maxGrace,
      ((afterCycles (evaluateKeeping config) past).evaluateKeeping config c).1 =
        .judge held maxGrace → maxGrace = maxHold config := by
    intro held maxGrace hJudge
    rcases evaluateRetaining_cases (fun _ _ => true) config
      (afterCycles (evaluateKeeping config) past) c with ⟨_, -, -, hHold, -⟩ | ⟨-, hPolicy, -⟩
    · cases hHold.symm.trans hJudge
    · exact (UnreachablePolicy.judge.inj (hJudge.symm.trans hPolicy)).2
  have hCases := evaluateRetaining_cases (recent config) config
    (afterCycles (evaluate config) past) c
  refine ⟨(hOrdered.evaluateRetaining (le_refl _)).spans, fun hHold => ?_,
    fun activeCounts agreement now hNow => ⟨fun at' hAt hLe => ?_, fun currentBlock => ?_,
      fun hJudges hTracked at' hAt hLong => ?_⟩⟩
  · rcases hCases with ⟨since, hSince, hShort, -, -⟩ | ⟨-, hPolicy, -⟩
    · refine ⟨since, tripSince_of_trippedSince ?_, hShort⟩
      exact trippedSince_evaluateRetaining.trans hSince
    · cases hHold.symm.trans hPolicy
  · rw [Option.mem_def.mp hAt]
    rcases hCases with ⟨-, -, -, hPolicy, -⟩ | ⟨-, hPolicy, -⟩
    · exact ⟨at', congrArg (·.progressClock (some at')) hPolicy, le_refl _, hLe⟩
    · refine ⟨_, congrArg (·.progressClock (some at')) hPolicy, ?_⟩
      exact progressClock_bounds (hOrdered.spans.filter _)
        (fun span hSpan => (hOrdered.within span (List.mem_of_mem_filter hSpan)).2) hLe hNow
  · rw [hPruned]
    exact checkAgreement_pruned hNow hKeeping
  · obtain ⟨block, hBlock⟩ := Option.isSome_iff_exists.mp hTracked
    rcases hCases with ⟨-, -, -, hPolicy, -⟩ | ⟨-, hPolicy, -⟩
    · exact absurd hPolicy hJudges
    · have hAbandons := checkAgreement_abandons
        ((afterCycles (evaluate config) past).held.filter (recent config c.now))
        hBlock (Option.mem_def.mp hAt) hLong
      rw [← hAbandons]
      exact congrArg (fun policy => checkAgreement config activeCounts agreement none
        (some policy) now) hPolicy

/-- A check that tolerates a day, and trips when half of the indexers are unreachable. -/
def sampleChecker : CheckerConfig where
  maxToleranceDays := 1
  trips checked unreachable := checked ≤ 2 * unreachable

def trippedCycles : List Cycle := [⟨4, 3, 3600 * 10 ^ 9⟩, ⟨4, 4, 0⟩]

/-- An hour later the trip still holds, its span the only one. -/
theorem trip_holds_third_cycle :
    (afterCycles (evaluate sampleChecker) (⟨4, 2, 7200 * 10 ^ 9⟩ :: trippedCycles)).held =
      [⟨0, 7200 * 10 ^ 9⟩] ∧
    ∃ since, TripSince sampleChecker since (⟨4, 2, 7200 * 10 ^ 9⟩ :: trippedCycles) ∧
      7200 * 10 ^ 9 - since ≤ maxHold sampleChecker := by
  obtain ⟨-, hHolds, -⟩ := breaker_grants_bounded_grace sampleChecker ⟨4, 2, 7200 * 10 ^ 9⟩
    trippedCycles (by unfold InTime; decide)
  exact ⟨by decide, hHolds (by decide)⟩

end Decisions

end Liveness

end Dipper
