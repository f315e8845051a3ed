import Dipper.Concurrent.Dialogue
import Dipper.Escrow.Reconciler

/-! Which rebalance slots the sweeps hand out.  A sweep whose provider list is complete hands out
the slots since the last such sweep; so from the first one on, no slot of a provider that every
complete list has is skipped, and a provider once owed a rebalance stays so until it gets one. -/

namespace Dipper

namespace Escrow

open Concurrent

section Due

variable {provider : Address} {period start stop slot : Nat}

/-- The provider's rebalance comes due at `slot`. -/
def IsSlot (provider : Address) (period slot : Nat) : Prop :=
  0 < slot ∧ rebalanceDue provider (slot - 1) slot period = true

theorem rebalanceDue_iff : rebalanceDue provider start stop period = true ↔
    period ≠ 0 ∧ start < stop ∧ saturatingAdd stop (provider.val / 2 ^ 96 % period) / period ≠
      saturatingAdd start (provider.val / 2 ^ 96 % period) / period := by
  unfold rebalanceDue
  split
  · rename_i hNone
    simp only [Bool.false_eq_true, false_iff]
    omega
  · rename_i hSome
    simp only [ne_eq, decide_not, Bool.not_eq_true', decide_eq_false_iff_not]
    omega

theorem saturatingAdd_mono {a b offset : Nat} (h : a ≤ b) :
    saturatingAdd a offset ≤ saturatingAdd b offset := by
  unfold saturatingAdd
  omega

theorem rebalanceDue_of_slot (hSlot : IsSlot provider period slot) (hStart : start < slot)
    (hStop : slot ≤ stop) : rebalanceDue provider start stop period = true := by
  obtain ⟨hPos, hDue⟩ := hSlot
  obtain ⟨hPeriod, -, hDiffers⟩ := rebalanceDue_iff.mp hDue
  refine rebalanceDue_iff.mpr ⟨hPeriod, by omega, ?_⟩
  generalize provider.val / 2 ^ 96 % period = offset at hDiffers ⊢
  have h1 : saturatingAdd start offset / period ≤ saturatingAdd (slot - 1) offset / period :=
    Nat.div_le_div_right (saturatingAdd_mono (by omega))
  have h2 : saturatingAdd (slot - 1) offset / period ≤ saturatingAdd slot offset / period :=
    Nat.div_le_div_right (saturatingAdd_mono (by omega))
  have h3 : saturatingAdd slot offset / period ≤ saturatingAdd stop offset / period :=
    Nat.div_le_div_right (saturatingAdd_mono hStop)
  omega

end Due

section Sweeps

variable {σ : Type} {sem : σ → (o : Op) → Res o → σ → Prop} {rely : σ → σ → Prop}
  {config : EscrowReconcilerConfig}

theorem returns_markDue (hRefl : ∀ s, rely s s) {period now start stop : Nat}
    (providers : List Address) (found : DueProviders) :
    (markDue period now start stop providers found).Returns sem rely fun out =>
      found.owed ⊆ out.owed ∧ ∀ provider ∈ providers,
        rebalanceDue provider start stop period = true → provider ∈ out.owed := by
  induction providers generalizing found with
  | nil => exact .pure ⟨Finset.Subset.refl _, nofun⟩
  | cons provider rest ih =>
    unfold markDue
    dsimp only
    generalize hMarked : (if rebalanceDue provider start stop period = true then
      { found with owed := insert provider found.owed } else found) = marked
    have hSub : found.owed ⊆ marked.owed := by
      rw [← hMarked]
      split
      · exact Finset.subset_insert _ _
      · exact Finset.Subset.refl _
    have hDue : rebalanceDue provider start stop period = true → provider ∈ marked.owed := by
      intro hDue
      rw [← hMarked, if_pos hDue]
      exact Finset.mem_insert_self _ _
    -- Whatever the account says, the rest goes on from what is owed here.
    have hRest : ∀ found', found'.owed = marked.owed →
        (markDue period now start stop rest found').Returns sem rely fun out =>
          found.owed ⊆ out.owed ∧ ∀ p ∈ provider :: rest,
            rebalanceDue p start stop period = true → p ∈ out.owed := by
      intro found' hSame s tr out s' run
      obtain ⟨hKept, hMarks⟩ := ih found' s tr out s' run
      rw [hSame] at hKept
      refine ⟨hSub.trans hKept, fun p hp hp' => ?_⟩
      rcases List.mem_cons.mp hp with rfl | hp
      · exact hKept (hDue hp')
      · exact hMarks p hp hp'
    refine .bind hRefl .any fun account _ => ?_
    split
    · split
      · exact hRest _ rfl
      · split
        · exact hRest _ rfl
        · exact hRest _ rfl
    · exact hRest _ rfl

/-- What a sweep that reads the head hands out. -/
structure HandsOut (config : EscrowReconcilerConfig) (tracked : TrackedProviders)
    (schedule : RebalanceSchedule) (list : DueList) : Prop where
  window : ∃ now, list.window = schedule.window now config.interval
  covered : list.schedule.coveredUntil =
    if tracked.complete then some list.window.2 else schedule.coveredUntil
  marks : ∀ p ∈ tracked.providers,
    rebalanceDue p list.window.1 list.window.2 config.rebalanceInterval = true →
    p ∈ list.schedule.owed
  keeps : ∀ p ∈ schedule.owed, (tracked.complete = true → p ∈ tracked.providers) →
    p ∈ list.schedule.owed

theorem returns_providersDue (hRefl : ∀ s, rely s s) {tracked : TrackedProviders}
    {limit : Option Nat} {schedule : RebalanceSchedule} :
    (providersDue config tracked limit schedule).Returns sem rely fun r =>
      ∀ list, r = .ok list → HandsOut config tracked schedule list := by
  refine .bind hRefl .any fun r _ => ?_
  cases r with
  | error e => exact .pure nofun
  | ok now =>
    refine .bind hRefl (returns_markDue hRefl _ _) fun found hFound => .pure ?_
    intro list hOk
    obtain rfl := Except.ok.inj hOk
    obtain ⟨hKept, hMarks⟩ := hFound
    refine ⟨⟨now, rfl⟩, rfl, hMarks, fun p hp hListed => hKept ?_⟩
    dsimp only
    split
    · rename_i hComplete
      exact Finset.mem_filter.mpr ⟨hp, hListed hComplete⟩
    · exact hp

/-- The providers a sweep takes for reconciled and for failed are those whose reconcile was answered
so. -/
structure Reconciles (due : List (Address × Reason)) (succeeded failed : List Address)
    (talk : List (Prog.Exchange Op Res)) : Prop where
  talks : (reconcileProviders due ∅ [] []).Talks talk (some (succeeded, failed))
  succeeded : ∀ p, p ∈ succeeded ↔ ∃ tx, ⟨.reconcileProvider p, .ok tx⟩ ∈ talk
  failed : ∀ p, p ∈ failed ↔ ∃ e, ⟨.reconcileProvider p, .error e⟩ ∈ talk

/-- By induction on the list, with those that were answered before. -/
theorem talks_reconcileProviders {due : List (Address × Reason)} {seen : Finset Address}
    {succeeded failed : List Address} {out : List Address × List Address}
    {talk : List (Prog.Exchange Op Res)}
    (h : (reconcileProviders due seen succeeded failed).Talks talk (some out)) (p : Address) :
    (p ∈ out.1 ↔ p ∈ succeeded ∨ ∃ tx, ⟨.reconcileProvider p, .ok tx⟩ ∈ talk) ∧
      (p ∈ out.2 ↔ p ∈ failed ∨ ∃ e, ⟨.reconcileProvider p, .error e⟩ ∈ talk) := by
  induction due generalizing seen succeeded failed talk with
  | nil =>
    obtain ⟨rfl, rfl⟩ := Prog.talks_pure h
    simp
  | cons first rest ih =>
    unfold reconcileProviders at h
    split at h
    · exact ih h
    · obtain ⟨r, talk1, talk2, h1, h2, rfl⟩ := Prog.talks_bind h
      obtain rfl := Prog.talks_perform h1
      cases r with
      | ok tx =>
        obtain ⟨hSucceeded, hFailed⟩ := ih h2
        rw [hSucceeded, hFailed]
        constructor
        · simp [or_assoc, exists_or, eq_comm]
        · simp
      | error e =>
        obtain ⟨hSucceeded, hFailed⟩ := ih h2
        rw [hSucceeded, hFailed]
        constructor
        · simp
        · simp [or_assoc, exists_or, eq_comm]

theorem returns_reconcileProviders {due : List (Address × Reason)} :
    (reconcileProviders due ∅ [] []).Returns sem rely fun r =>
      ∃ talk, Reconciles due r.1 r.2 talk := by
  intro s tr r s' run
  obtain ⟨talk, hTalks⟩ := run.talks
  refine ⟨talk, hTalks, fun p => ?_, fun p => ?_⟩
  · simpa using (talks_reconcileProviders hTalks p).1
  · simpa using (talks_reconcileProviders hTalks p).2

/-- What a sweep comes to for the schedule. -/
inductive Swept (config : EscrowReconcilerConfig) (schedule : RebalanceSchedule) :
    SweepReport → RebalanceSchedule → Prop
  | nothing {report : SweepReport} : report.handedOut = none → Swept config schedule report schedule
  | handsOut {report : SweepReport} {tracked : TrackedProviders} {list : DueList}
      {failed : List Address} {talk : List (Prog.Exchange Op Res)} :
      report.tracked = some tracked → report.handedOut = some list →
      HandsOut config tracked schedule list → Reconciles list.due report.succeeded failed talk →
      Swept config schedule report (list.schedule.settle report.succeeded failed)

theorem returns_sweep (hRefl : ∀ s, rely s s) {state : SweepState} :
    (sweep config state).Returns sem rely fun r => ∀ state' report, r = some (state', report) →
      Swept config state.schedule report state'.schedule := by
  refine .bind hRefl .any fun r _ => ?_
  cases r with
  | error e =>
    refine .pure ?_
    rintro state' report hSome
    obtain ⟨rfl, rfl⟩ := Prod.mk.inj (Option.some.inj hSome)
    exact .nothing rfl
  | ok tracked =>
    refine .bind hRefl .any fun r _ => ?_
    cases r with
    | none => exact .pure nofun
    | some r =>
      refine .bind hRefl .any fun _ _ => ?_
      split
      · refine .pure ?_
        rintro state' report hSome
        obtain ⟨rfl, rfl⟩ := Prod.mk.inj (Option.some.inj hSome)
        exact .nothing rfl
      · refine .bind hRefl (returns_providersDue hRefl) fun r hDue => ?_
        cases r with
        | error e =>
          refine .pure ?_
          rintro state' report hSome
          obtain ⟨rfl, rfl⟩ := Prod.mk.inj (Option.some.inj hSome)
          exact .nothing rfl
        | ok list =>
          refine .bind hRefl returns_reconcileProviders fun r hReconciles => .pure ?_
          rintro state' report hSome
          obtain ⟨rfl, rfl⟩ := Prod.mk.inj (Option.some.inj hSome)
          obtain ⟨talk, hReconciles⟩ := hReconciles
          exact .handsOut rfl rfl (hDue list rfl) hReconciles

end Sweeps

section Runs

variable {config : EscrowReconcilerConfig} {p : Address} {s s' : SweepState}
  {reports : List SweepReport} {slot : Nat}

/-- Sweeps one after another, with what each did; every call may be answered anything. -/
inductive Sweeps (config : EscrowReconcilerConfig) :
    SweepState → List SweepReport → SweepState → Prop
  | done {s : SweepState} : Sweeps config s [] s
  | next {s s1 s' : SweepState} {report : SweepReport} {reports : List SweepReport}
      {tr : List (Action Unit Op)} :
      (sweep config s).Runs (fun _ _ _ _ => True) (fun _ _ => True) () tr
        (some (some (s1, report))) () →
      Sweeps config s1 reports s' → Sweeps config s (report :: reports) s'

theorem Sweeps.head {report : SweepReport} (h : Sweeps config s (report :: reports) s') :
    ∃ s1, Swept config s.schedule report s1.schedule ∧ Sweeps config s1 reports s' := by
  cases h with
  | next run rest => exact ⟨_, returns_sweep (fun _ => trivial) _ _ _ _ run _ _ rfl, rest⟩

/-- No list that is reported complete leaves the provider out. -/
def NeverLeftOut (p : Address) (reports : List SweepReport) : Prop :=
  ∀ report ∈ reports, ∀ tracked ∈ report.tracked, tracked.complete = true → p ∈ tracked.providers

/-- The provider was owed a rebalance in a sweep that handed the slot out. -/
def MarkedOwed (p : Address) (slot : Nat) (report : SweepReport) : Prop :=
  ∃ list ∈ report.handedOut, list.window.1 < slot ∧ slot ≤ list.window.2 ∧ p ∈ list.schedule.owed

/-- The sweep had a complete list and covered the time up to `stop`. -/
def CoversUntil (stop : Nat) (report : SweepReport) : Prop :=
  (∃ tracked ∈ report.tracked, tracked.complete = true) ∧
    ∃ list ∈ report.handedOut, list.window.2 = stop

theorem NeverLeftOut.tail {report : SweepReport} (h : NeverLeftOut p (report :: reports)) :
    NeverLeftOut p reports :=
  fun r hr => h r (List.mem_cons_of_mem _ hr)

/-- Once a time is covered, every later slot up to the end of a complete sweep gets marked. -/
theorem Sweeps.covers (hSweeps : Sweeps config s reports s') {c stop : Nat} {report : SweepReport}
    (hCovered : s.schedule.coveredUntil = some c) (hListed : NeverLeftOut p reports)
    (hSlot : IsSlot p config.rebalanceInterval slot) (hAfter : c < slot)
    (hReport : report ∈ reports) (hStop : CoversUntil stop report) (hLe : slot ≤ stop) :
    ∃ report ∈ reports, MarkedOwed p slot report := by
  induction reports generalizing s c with
  | nil => cases hReport
  | cons first rest ih =>
    obtain ⟨s1, hSwept, hRest⟩ := hSweeps.head
    have hIn : first ≠ report → report ∈ rest := fun hNe =>
      (List.mem_cons.mp hReport).resolve_left fun hEq => hNe hEq.symm
    generalize hSchedule : s1.schedule = schedule1 at hSwept
    cases hSwept with
    | nothing hNone =>
      have hTail : report ∈ rest := hIn fun hEq => by
        obtain ⟨-, list, hList, -⟩ := hStop
        rw [← hEq, hNone] at hList
        cases hList
      obtain ⟨r, hr, hMarked⟩ := ih hRest (hSchedule ▸ hCovered) hListed.tail hAfter hTail
      exact ⟨r, List.mem_cons_of_mem _ hr, hMarked⟩
    | @handsOut tracked list failed talk hTracked hList hOut _ =>
      obtain ⟨now, hWindow⟩ := hOut.window
      have hStart : list.window.1 = c := by rw [hWindow, RebalanceSchedule.window, hCovered]; rfl
      cases hComplete : tracked.complete with
      | false =>
        have hTail : report ∈ rest := hIn fun hEq => by
          obtain ⟨⟨tracked', hTracked', hComplete'⟩, -⟩ := hStop
          rw [← hEq, hTracked] at hTracked'
          obtain rfl := Option.some.inj hTracked'
          cases hComplete.symm.trans hComplete'
        have hSame : s1.schedule.coveredUntil = some c := by
          rw [hSchedule]
          refine hOut.covered.trans ?_
          rw [hComplete]
          exact hCovered
        obtain ⟨r, hr, hMarked⟩ := ih hRest hSame hListed.tail hAfter hTail
        exact ⟨r, List.mem_cons_of_mem _ hr, hMarked⟩
      | true =>
        by_cases hHere : slot ≤ list.window.2
        · refine ⟨first, List.mem_cons_self, list, hList, by omega, hHere, ?_⟩
          refine hOut.marks p (hListed first List.mem_cons_self tracked hTracked hComplete) ?_
          exact rebalanceDue_of_slot hSlot (by omega) hHere
        · have hTail : report ∈ rest := hIn fun hEq => by
            obtain ⟨-, list', hList', hStop'⟩ := hStop
            rw [← hEq, hList] at hList'
            obtain rfl := Option.some.inj hList'
            omega
          have hNext : s1.schedule.coveredUntil = some list.window.2 := by
            rw [hSchedule]
            refine hOut.covered.trans ?_
            rw [hComplete]
            rfl
          obtain ⟨r, hr, hMarked⟩ := ih hRest hNext hListed.tail (by omega) hTail
          exact ⟨r, List.mem_cons_of_mem _ hr, hMarked⟩

/-- A sweep leaves a provider owed a rebalance unless its reconcile went through or a complete
list leaves it out. -/
theorem Swept.stays_owed {schedule schedule' : RebalanceSchedule} {report : SweepReport}
    (h : Swept config schedule report schedule') (hFailed : p ∉ report.succeeded)
    (hListed : ∀ tracked ∈ report.tracked, tracked.complete = true → p ∈ tracked.providers)
    (hOwed : p ∈ schedule.owed ∨ ∃ list ∈ report.handedOut, p ∈ list.schedule.owed) :
    p ∈ schedule'.owed := by
  cases h with
  | nothing hNone =>
    rcases hOwed with hOwed | ⟨list, hList, -⟩
    · exact hOwed
    · rw [hNone] at hList
      cases hList
  | @handsOut tracked list failed talk hTracked hList hOut _ =>
    refine Finset.mem_union_left _ (Finset.mem_filter.mpr ⟨?_, by simpa using hFailed⟩)
    rcases hOwed with hOwed | ⟨list', hList', hOwed⟩
    · exact hOut.keeps p hOwed (hListed tracked hTracked)
    · rw [hList] at hList'
      obtain rfl := Option.some.inj hList'
      exact hOwed

theorem Sweeps.stays_owed (hSweeps : Sweeps config s reports s') (hListed : NeverLeftOut p reports)
    (hFailed : ∀ report ∈ reports, p ∉ report.succeeded) (hOwed : p ∈ s.schedule.owed) :
    p ∈ s'.schedule.owed := by
  induction reports generalizing s with
  | nil =>
    cases hSweeps
    exact hOwed
  | cons report reports ih =>
    obtain ⟨s1, hSwept, hRest⟩ := hSweeps.head
    refine ih hRest hListed.tail (fun r hr => hFailed r (List.mem_cons_of_mem _ hr)) ?_
    exact hSwept.stays_owed (hFailed report List.mem_cons_self)
      (hListed report List.mem_cons_self) (.inl hOwed)

theorem Sweeps.split {quiet : List SweepReport} (hSweeps : Sweeps config s (quiet ++ reports) s')
    (hQuiet : ∀ report ∈ quiet, report.handedOut = none) :
    ∃ s1, s1.schedule = s.schedule ∧ Sweeps config s1 reports s' := by
  induction quiet generalizing s with
  | nil => exact ⟨s, rfl, hSweeps⟩
  | cons report quiet ih =>
    obtain ⟨s1, hSwept, hRest⟩ := hSweeps.head
    obtain ⟨s2, hSame, hRest'⟩ := ih hRest fun r hr => hQuiet r (List.mem_cons_of_mem _ hr)
    refine ⟨s2, ?_, hRest'⟩
    have hNone := hQuiet report List.mem_cons_self
    rw [hSame]
    generalize s1.schedule = schedule1 at hSwept
    cases hSwept with
    | nothing _ => rfl
    | handsOut _ hList _ _ =>
      rw [hNone] at hList
      cases hList

/-- Where the first sweep that reads the head has a complete list, every slot of a provider that no
complete list leaves out, from the start of that sweep's window up to the time a complete sweep
covers, has been marked owed; and a provider owed a rebalance stays so until a reconcile of it goes
through or a complete list leaves it out. -/
theorem no_slot_skipped {config : EscrowReconcilerConfig} {quiet rest : List SweepReport}
    {first : SweepReport} {list : DueList} {s : SweepState}
    (hSweeps : Sweeps config {} (quiet ++ first :: rest) s)
    (hQuiet : ∀ report ∈ quiet, report.handedOut = none) (hFirst : first.handedOut = some list)
    (hComplete : ∃ tracked ∈ first.tracked, tracked.complete = true) :
    (∀ p, NeverLeftOut p (quiet ++ first :: rest) → ∀ slot, IsSlot p config.rebalanceInterval slot →
      list.window.1 < slot → ∀ report ∈ first :: rest, ∀ stop, CoversUntil stop report →
      slot ≤ stop → ∃ report ∈ first :: rest, MarkedOwed p slot report) ∧
    ∀ p (s1 s2 : SweepState) (reports : List SweepReport), Sweeps config s1 reports s2 →
      (p ∈ s1.schedule.owed ∨ ∃ report ∈ reports.head?, ∃ list ∈ report.handedOut,
        p ∈ list.schedule.owed) →
      NeverLeftOut p reports → (∀ report ∈ reports, p ∉ report.succeeded) →
      p ∈ s2.schedule.owed := by
  constructor
  · intro p hListed slot hSlot hStart report hReport stop hStop hLe
    obtain ⟨s1, -, hFrom⟩ := hSweeps.split hQuiet
    obtain ⟨s2, hSwept, hRest⟩ := hFrom.head
    have hListed' : NeverLeftOut p (first :: rest) :=
      fun r hr => hListed r (List.mem_append_right _ hr)
    generalize hSchedule : s2.schedule = schedule2 at hSwept
    cases hSwept with
    | nothing hNone => cases hNone.symm.trans hFirst
    | @handsOut tracked list' failed talk hTracked hList hOut _ =>
      obtain rfl := Option.some.inj (hList.symm.trans hFirst)
      have hAll : tracked.complete = true := by
        obtain ⟨tracked', hTracked', hComplete'⟩ := hComplete
        rw [hTracked] at hTracked'
        obtain rfl := Option.some.inj hTracked'
        exact hComplete'
      by_cases hHere : slot ≤ list'.window.2
      · refine ⟨first, List.mem_cons_self, list', hList, hStart, hHere, ?_⟩
        refine hOut.marks p (hListed' first List.mem_cons_self tracked hTracked hAll) ?_
        exact rebalanceDue_of_slot hSlot hStart hHere
      · have hNext : s2.schedule.coveredUntil = some list'.window.2 := by
          rw [hSchedule]
          refine hOut.covered.trans ?_
          rw [hAll]
          rfl
        have hTail : report ∈ rest := by
          refine (List.mem_cons.mp hReport).resolve_left ?_
          rintro rfl
          obtain ⟨-, list, hList', hEnd⟩ := hStop
          rw [hList] at hList'
          obtain rfl := Option.some.inj hList'
          omega
        obtain ⟨r, hr, hMarked⟩ := hRest.covers hNext hListed'.tail hSlot (by omega) hTail hStop hLe
        exact ⟨r, List.mem_cons_of_mem _ hr, hMarked⟩
  · intro p s1 s2 reports hRun hOwed hListed hFailed
    cases reports with
    | nil =>
      cases hRun
      rcases hOwed with hOwed | ⟨report, hNone, -⟩
      · exact hOwed
      · cases hNone
    | cons report reports =>
      obtain ⟨s3, hSwept, hRest⟩ := hRun.head
      refine hRest.stays_owed hListed.tail (fun r hr => hFailed r (List.mem_cons_of_mem _ hr)) ?_
      refine hSwept.stays_owed (hFailed report List.mem_cons_self)
        (hListed report List.mem_cons_self) (hOwed.imp_right ?_)
      rintro ⟨report', hHead, hMarked⟩
      obtain rfl := Option.some.inj hHead
      exact hMarked

theorem runs_answered {α : Type} {p : EscrowAct α} {a : α} (answers : List ((o : Op) × Res o))
    (hOut : (p.play answered () answers).2.1 = some a) :
    ∃ tr, p.Runs (fun _ _ _ _ => True) (fun _ _ => True) () tr (some a) () := by
  have hRun : p.Runs (fun _ _ _ _ => True) (fun _ _ => True) () _ _ _ :=
    Prog.runs_play (fun _ => trivial)
      (fun s o c r s' (_ : answered s o c = some (r, s')) => trivial) p () answers
  rw [hOut] at hRun
  exact ⟨_, hRun⟩

theorem Sweeps.played {config : EscrowReconcilerConfig} {s s' : SweepState}
    {report : SweepReport} {reports : List SweepReport} (answers : List ((o : Op) × Res o))
    (s1 : SweepState)
    (hOut : ((sweep config s).play answered () answers).2.1 = some (some (s1, report)))
    (hRest : Sweeps config s1 reports s') : Sweeps config s (report :: reports) s' := by
  obtain ⟨_, hRun⟩ := runs_answered answers hOut
  exact .next hRun hRest

/-- Sweeps every ten seconds, with a rebalance of each provider every hundred. -/
def sampleSweeps : EscrowReconcilerConfig where
  interval := 10
  batchSize := 0
  rebalanceInterval := 100
  agreementsPerSweep := 0

/-- The answers to a sweep that reads `tracked` providers, of which provider 1 is the only one, and
then the head. -/
def oneProvider (tracked head : Nat) (listed : List ((o : Op) × Res o)) : List ((o : Op) × Res o) :=
  [⟨.getProviderCount, .ok tracked⟩, ⟨.getProviderAt 0, .ok 1⟩] ++ listed ++
    [⟨.getAgreementCount 1, .ok 0⟩, ⟨.latestBlockTimestamp, .ok head⟩,
      ⟨.getEscrowAccount 1, .ok ⟨0, 0, 0⟩⟩, ⟨.reconcileProvider 1, .ok none⟩]

def sweptOne (complete : Bool) (list : DueList) (succeeded : List Address) : SweepReport where
  tracked := some ⟨[1], complete⟩
  handedOut := some list
  succeeded := succeeded

/-- A sweep at 95 and one at 115 that hands out provider 1's slot at 100. -/
def evenSweeps : List SweepReport :=
  [sweptOne true ⟨(85, 95), [], { coveredUntil := some 95 }⟩ [],
    sweptOne true ⟨(95, 115), [(1, .rebalance)], { coveredUntil := some 115, owed := {1} }⟩ [1]]

theorem evenSweeps_runs :
    Sweeps sampleSweeps {} evenSweeps { schedule := { coveredUntil := some 115 } } :=
  .played (oneProvider 1 95 []) { schedule := { coveredUntil := some 95 } } (by decide +kernel)
    (.played (oneProvider 1 115 []) _ (by decide +kernel) .done)

theorem slot_handed_out_at_115 :
    IsSlot 1 100 100 ∧ ∃ report ∈ evenSweeps, MarkedOwed 1 100 report := by
  have hSlot : IsSlot 1 sampleSweeps.rebalanceInterval 100 := ⟨by decide, by decide⟩
  have hRun : Sweeps sampleSweeps {} ([] ++ evenSweeps.head (by decide) :: evenSweeps.tail) _ :=
    evenSweeps_runs
  refine ⟨hSlot, (no_slot_skipped hRun nofun rfl ⟨_, rfl, rfl⟩).1 1 ?_ 100 hSlot (by decide)
    (sweptOne true ⟨(95, 115), [(1, .rebalance)], { coveredUntil := some 115, owed := {1} }⟩ [1])
    (by decide) 115 ⟨⟨_, rfl, rfl⟩, _, rfl, rfl⟩ (by decide)⟩
  unfold NeverLeftOut
  decide

/-- A sweep at 95 whose list comes up short, and one at 115. -/
def skippingSweeps : List SweepReport :=
  [sweptOne false ⟨(85, 95), [], {}⟩ [],
    sweptOne true ⟨(105, 115), [], { coveredUntil := some 115 }⟩ []]

/-- The short list leaves nothing covered, so the next sweep looks back by one interval only: the
slot at 100 of provider 1, which is on both lists, is skipped. -/
theorem slot_skipped_after_short_list :
    Sweeps sampleSweeps {} skippingSweeps { schedule := { coveredUntil := some 115 } } ∧
    (∀ report ∈ skippingSweeps, ∀ tracked ∈ report.tracked, 1 ∈ tracked.providers) ∧
    IsSlot 1 sampleSweeps.rebalanceInterval 100 ∧
    (∃ report ∈ skippingSweeps.head?, ∃ list ∈ report.handedOut, list.window.1 < 100) ∧
    (∃ report ∈ skippingSweeps, ∃ stop, CoversUntil stop report ∧ 100 ≤ stop) ∧
    ∀ report ∈ skippingSweeps, ∀ list ∈ report.handedOut, 1 ∉ list.schedule.owed := by
  refine ⟨?_, by decide, ⟨by decide, by decide⟩, by decide, ?_, by decide⟩
  · exact .played (oneProvider 2 95 [⟨.getProviderAt 1, .error (.rpcError "reverted")⟩])
      {} (by decide +kernel) (.played (oneProvider 1 115 []) _ (by decide +kernel) .done)
  · exact ⟨_, List.mem_cons_of_mem _ List.mem_cons_self, 115, ⟨⟨_, rfl, rfl⟩, _, rfl, rfl⟩,
      by decide⟩

end Runs

end Escrow

end Dipper
