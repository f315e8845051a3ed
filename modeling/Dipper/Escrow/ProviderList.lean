import Dipper.EnumerableSet
import Dipper.Escrow.Slots

/-! Reading the manager's provider list entry by entry while providers are added and removed.  The
reads tell a shifted list only by an entry that turns up twice or an index past the end; a removal
and an addition between two reads can move a provider to a place already read, and leave no
trace. -/

namespace Dipper

namespace Escrow

open Concurrent

/-- The manager's providers, and how many there were when the reader counted them. -/
structure ManagerList where
  providers : EnumerableSet Address
  counted : Option Nat

/-- The answers a reader may get: each read fails, or sees the list as it is. -/
def ManagerList.Answers (m : ManagerList) : (o : Op) → Res o → ManagerList → Prop
  | .getProviderCount, r, m' =>
    m' = { m with counted := some m.providers.entries.length } ∧
      ((∃ e, r = .error e) ∨ r = .ok m.providers.entries.length)
  | .getProviderAt index, r, m' =>
    m' = m ∧ ((∃ e, r = .error e) ∨ ∃ provider, m.providers.entries[index]? = some provider ∧
      r = .ok provider)
  | _, _, m' => m' = m

/-- Providers are added and removed, and `ok` holds of the list after each change. -/
def ManagerList.Shifts (ok : ManagerList → Prop) : ManagerList → ManagerList → Prop :=
  Relation.ReflTransGen fun m m' =>
    m.providers.Change m'.providers ∧ m'.counted = m.counted ∧ ok m'

def ManagerList.Has (p : Address) (m : ManagerList) : Prop := p ∈ m.providers.entries

/-- The set has no fewer entries than were counted. -/
def ManagerList.Full (m : ManagerList) : Prop := ∀ n ∈ m.counted, n ≤ m.providers.entries.length

section Read

variable {p : Address} {m m' : ManagerList} {tr : List (Action ManagerList Op)} {i n : Nat}

open ManagerList

theorem ManagerList.Shifts.refl (ok : ManagerList → Prop) (m : ManagerList) : Shifts ok m m :=
  Relation.ReflTransGen.refl

theorem ManagerList.Shifts.counted {ok : ManagerList → Prop} (h : Shifts ok m m') :
    m'.counted = m.counted := by
  induction h with
  | refl => rfl
  | tail _ hStep ih => exact hStep.2.1.trans ih

theorem ManagerList.Shifts.has {ok : ManagerList → Prop} (hOk : ∀ m, ok m → m.Has p)
    (h : Shifts ok m m') (hHas : m.Has p) : m'.Has p := by
  induction h with
  | refl => exact hHas
  | tail _ hStep _ => exact hOk _ hStep.2.2

theorem ManagerList.Shifts.keeps_place (h : Shifts (fun m => m.Has p ∧ m.Full) m m')
    (hCounted : m.counted = some n) (hi : i < n) (hPlace : m.providers.entries[i]? = some p) :
    m'.providers.entries[i]? = some p := by
  induction h with
  | refl => exact hPlace
  | @tail m1 m2 hRun hStep ih =>
    obtain ⟨hChange, hSame, hHas, hFull⟩ := hStep
    have hCounted' : m2.counted = some n := by
      rw [hSame, ManagerList.Shifts.counted hRun, hCounted]
    exact hChange.keeps_place ih hi (hFull n hCounted') hHas

theorem runs_readProviders (remaining : Nat) {index : Nat} {tracked out : TrackedProviders}
    (run : (readProviders remaining index tracked).Runs Answers
      (Shifts fun m => m.Has p ∧ m.Full) m tr (some out) m')
    (hCounted : m.counted = some n) (hLeft : index + remaining = n)
    (hPlace : p ∈ tracked.providers ∨
      ∃ i, index ≤ i ∧ i < n ∧ m.providers.entries[i]? = some p)
    (hComplete : out.complete = true) : p ∈ out.providers := by
  induction remaining generalizing index tracked m tr with
  | zero =>
    obtain ⟨rfl, -, -⟩ := Prog.runs_pure run
    rcases hPlace with hRead | ⟨i, hFrom, hTo, -⟩
    · exact hRead
    · omega
  | succ remaining ih =>
    obtain ⟨r, tr1, tr2, m1, run1, run2, -⟩ := Prog.runs_bind (Shifts.refl _) run
    obtain ⟨m2, m3, hShifts, hAnswers, hShifts', -⟩ := Prog.runs_perform run1
    obtain ⟨rfl, hResult⟩ := hAnswers
    have hCounted1 : m1.counted = some n := by
      rw [hShifts'.counted, hShifts.counted, hCounted]
    have hCounted3 : m3.counted = some n := by rw [hShifts.counted, hCounted]
    rcases hResult with ⟨e, rfl⟩ | ⟨provider, hAt, rfl⟩
    · obtain ⟨rfl, -, -⟩ := Prog.runs_pure run2
      cases hComplete
    -- The provider was read before, or just now, or has its place among those still to be read.
    have hPlace' : p ∈ tracked.providers ∨ p = provider ∨
        ∃ i, index + 1 ≤ i ∧ i < n ∧ m1.providers.entries[i]? = some p := by
      rcases hPlace with hRead | ⟨i, hFrom, hTo, hPlace⟩
      · exact .inl hRead
      · have hPlace3 := hShifts.keeps_place hCounted hTo hPlace
        by_cases hHere : i = index
        · subst hHere
          exact .inr (.inl (Option.some.inj (hPlace3.symm.trans hAt)))
        · exact .inr (.inr ⟨i, by omega, hTo, hShifts'.keeps_place hCounted3 hTo hPlace3⟩)
    dsimp only at run2
    split at run2
    · rename_i hSeen
      refine ih run2 hCounted1 (by omega) ?_
      rcases hPlace' with hRead | rfl | hLater
      · exact .inl hRead
      · exact .inl hSeen
      · exact .inr hLater
    · refine ih run2 hCounted1 (by omega) ?_
      rcases hPlace' with hRead | rfl | hLater
      · exact .inl (List.mem_append_left _ hRead)
      · exact .inl (List.mem_append_right _ (List.mem_singleton.mpr rfl))
      · exact .inr hLater

/-- As long as the list has no fewer entries than were counted, a list reported complete has every
provider that was in the set during the whole read, so none of them loses a rebalance it is owed. -/
theorem complete_list_has_all {p : Address} {m m' : ManagerList}
    {tr : List (Action ManagerList Op)} {tracked : TrackedProviders} (hHas : m.Has p)
    (run : trackedProviders.Runs ManagerList.Answers
      (ManagerList.Shifts fun m => m.Has p ∧ m.Full) m tr (some (.ok tracked)) m')
    (hComplete : tracked.complete = true) :
    p ∈ tracked.providers ∧ ∀ (config : EscrowReconcilerConfig) (limit : Option Nat)
      (schedule : RebalanceSchedule) (tr : List (Action Unit Op)) (list : DueList),
      (providersDue config tracked limit schedule).Runs (fun _ _ _ _ => True) (fun _ _ => True) ()
        tr (some (.ok list)) () →
      p ∈ schedule.owed → p ∈ list.schedule.owed := by
  have hRead : p ∈ tracked.providers := by
    obtain ⟨r, tr1, tr2, m1, run1, run2, -⟩ := Prog.runs_bind (Shifts.refl _) run
    obtain ⟨m2, m3, hShifts, hAnswers, hShifts', -⟩ := Prog.runs_perform run1
    obtain ⟨rfl, hResult⟩ := hAnswers
    rcases hResult with ⟨e, rfl⟩ | rfl
    · obtain ⟨hEq, -⟩ := Prog.runs_pure run2
      cases hEq
    dsimp only at run2
    split at run2
    · obtain ⟨hEq, -⟩ := Prog.runs_pure run2
      cases hEq
    · rename_i count hCount
      have hSame : count = m2.providers.entries.length := by
        unfold countOf at hCount
        split at hCount
        · exact (Except.ok.inj hCount).symm
        · cases hCount
      subst hSame
      obtain ⟨out, tr3, tr4, m4, run3, run4, -⟩ := Prog.runs_bind (Shifts.refl _) run2
      obtain ⟨hOut, -⟩ := Prog.runs_pure run4
      obtain rfl := Except.ok.inj hOut
      have hHas2 : m2.Has p := hShifts.has (fun _ h => h.1) hHas
      obtain ⟨i, hi⟩ := List.mem_iff_getElem?.mp hHas2
      have hLt : i < m2.providers.entries.length := (List.getElem?_eq_some_iff.mp hi).1
      refine runs_readProviders _ run3 hShifts'.counted (by omega) (.inr ⟨i, by omega, hLt, ?_⟩)
        hComplete
      exact hShifts'.keeps_place rfl hLt hi
  refine ⟨hRead, fun config limit schedule tr list hRun hOwed => ?_⟩
  have hOut := returns_providersDue (fun _ => trivial) _ _ _ _ hRun list rfl
  exact hOut.keeps p hOwed fun _ => hRead

/-- A manager with the given providers, not counted yet. -/
def managerOf (providers : List Address) (h : providers.Nodup) : ManagerList where
  providers := ⟨providers, h⟩
  counted := none

theorem shifts_first_replaced : ManagerList.Shifts (fun m => m.Has 1 ∧ m.Full)
    ⟨⟨[2, 1], by decide⟩, some 2⟩ ⟨⟨[3, 1], by decide⟩, some 2⟩ := by
  have hAdd : (⟨[2, 1], by decide⟩ : EnumerableSet Address).Change ⟨[2, 1, 3], by decide⟩ :=
    .add (show (3 : Address) ∉ [2, 1] by decide)
  have hRemove : (⟨[2, 1, 3], by decide⟩ : EnumerableSet Address).Change ⟨[3, 1], by decide⟩ :=
    EnumerableSet.Change.remove (s := ⟨[2, 1, 3], by decide⟩) (i := 0) (by decide)
  have hFull : ∀ (entries : List Address) (h : entries.Nodup), 2 ≤ entries.length →
      ManagerList.Full ⟨⟨entries, h⟩, some 2⟩ := by
    rintro entries h hLength n hn
    obtain rfl := Option.some.inj hn
    exact hLength
  have hFirst : ManagerList.Shifts (fun m => m.Has 1 ∧ m.Full) ⟨⟨[2, 1], by decide⟩, some 2⟩
      ⟨⟨[2, 1, 3], by decide⟩, some 2⟩ :=
    .single ⟨hAdd, rfl, show (1 : Address) ∈ [2, 1, 3] by decide, hFull _ _ (by decide)⟩
  exact hFirst.tail
    ⟨hRemove, rfl, show (1 : Address) ∈ [3, 1] by decide, hFull _ _ (by decide)⟩

/-- Of two providers counted the first is read and then replaced, by an addition and a removal;
provider 1, the second, is read where it was and keeps the rebalance it is owed. -/
theorem second_of_two_listed : ∃ tr tracked m',
    trackedProviders.Runs ManagerList.Answers (ManagerList.Shifts fun m => m.Has 1 ∧ m.Full)
      (managerOf [2, 1] (by decide)) tr (some (.ok tracked)) m' ∧
    tracked.complete = true ∧ m'.providers.entries = [3, 1] ∧ 1 ∈ tracked.providers ∧
    ∃ tr list, (providersDue sampleSweeps tracked none { owed := {1} }).Runs
      (fun _ _ _ _ => True) (fun _ _ => True) () tr (some (.ok list)) () ∧
      1 ∈ list.schedule.owed := by
  have hRun : trackedProviders.Runs ManagerList.Answers
      (ManagerList.Shifts fun m => m.Has 1 ∧ m.Full) (managerOf [2, 1] (by decide)) _
      (some (.ok ⟨[2, 1], true⟩)) _ :=
    .op (Shifts.refl _ _) ⟨rfl, .inr rfl⟩ <|
    .op (Shifts.refl _ _) ⟨rfl, .inr ⟨2, rfl, rfl⟩⟩ <|
    .op shifts_first_replaced ⟨rfl, .inr ⟨1, rfl, rfl⟩⟩ <| .ret (Shifts.refl _ _)
  have hOut : ((providersDue sampleSweeps ⟨[2, 1], true⟩ none { owed := {1} }).play answered ()
      [⟨.latestBlockTimestamp, .ok 95⟩, ⟨.getEscrowAccount 2, .ok ⟨0, 0, 0⟩⟩,
        ⟨.getEscrowAccount 1, .error (.rpcError "reverted")⟩]).2.1 =
      some (.ok ⟨(85, 95), [], { coveredUntil := some 95, owed := {1} }⟩) := by
    decide +kernel
  obtain ⟨_, hDue⟩ := runs_answered _ hOut
  have hHas : (managerOf [2, 1] (by decide)).Has 1 := List.mem_cons_of_mem _ List.mem_cons_self
  obtain ⟨hListed, hKept⟩ := complete_list_has_all hHas hRun rfl
  exact ⟨_, _, _, hRun, rfl, rfl, hListed, _, _, hDue,
    hKept _ _ _ _ _ hDue (Finset.mem_singleton_self _)⟩

theorem shifts_third_to_first (counted : Option Nat) : ManagerList.Shifts (ManagerList.Has 3)
    ⟨⟨[1, 2, 3], by decide⟩, counted⟩ ⟨⟨[3, 2, 4], by decide⟩, counted⟩ := by
  have hRemove : (⟨[1, 2, 3], by decide⟩ : EnumerableSet Address).Change ⟨[3, 2], by decide⟩ :=
    EnumerableSet.Change.remove (s := ⟨[1, 2, 3], by decide⟩) (i := 0) (by decide)
  have hAdd : (⟨[3, 2], by decide⟩ : EnumerableSet Address).Change ⟨[3, 2, 4], by decide⟩ :=
    .add (show (4 : Address) ∉ [3, 2] by decide)
  have hFirst : ManagerList.Shifts (ManagerList.Has 3) ⟨⟨[1, 2, 3], by decide⟩, counted⟩
      ⟨⟨[3, 2], by decide⟩, counted⟩ := .single ⟨hRemove, rfl, List.mem_cons_self⟩
  exact hFirst.tail ⟨hAdd, rfl, List.mem_cons_self⟩

/-- Of three providers counted the first is read and then removed, which moves the third into its
place; a fourth is added, and the other two reads find the second and the fourth.  The list is
reported complete without the third, which loses the rebalance it is owed. -/
theorem moved_provider_missed : (managerOf [1, 2, 3] (by decide)).Has 3 ∧ ∃ tr m',
    trackedProviders.Runs ManagerList.Answers (ManagerList.Shifts (ManagerList.Has 3))
      (managerOf [1, 2, 3] (by decide)) tr (some (.ok ⟨[1, 2, 4], true⟩)) m' ∧
    ∃ tr list, (providersDue sampleSweeps ⟨[1, 2, 4], true⟩ none { owed := {3} }).Runs
      (fun _ _ _ _ => True) (fun _ _ => True) () tr (some (.ok list)) () ∧
      3 ∉ list.schedule.owed := by
  have hRead : trackedProviders.Runs ManagerList.Answers (ManagerList.Shifts (ManagerList.Has 3))
      (managerOf [1, 2, 3] (by decide)) _ (some (.ok ⟨[1, 2, 4], true⟩)) _ :=
    .op (Shifts.refl _ _) ⟨rfl, .inr rfl⟩ <|
    .op (Shifts.refl _ _) ⟨rfl, .inr ⟨1, rfl, rfl⟩⟩ <|
    .op (shifts_third_to_first (some 3)) ⟨rfl, .inr ⟨2, rfl, rfl⟩⟩ <|
    .op (Shifts.refl _ _) ⟨rfl, .inr ⟨4, rfl, rfl⟩⟩ <| .ret (Shifts.refl _ _)
  have hOut : ((providersDue sampleSweeps ⟨[1, 2, 4], true⟩ none { owed := {3} }).play answered ()
      [⟨.latestBlockTimestamp, .ok 95⟩, ⟨.getEscrowAccount 1, .ok ⟨0, 0, 0⟩⟩,
        ⟨.getEscrowAccount 2, .ok ⟨0, 0, 0⟩⟩, ⟨.getEscrowAccount 4, .ok ⟨0, 0, 0⟩⟩]).2.1 =
      some (.ok ⟨(85, 95), [], { coveredUntil := some 95 }⟩) := by
    decide +kernel
  obtain ⟨_, hDue⟩ := runs_answered _ hOut
  exact ⟨by unfold ManagerList.Has managerOf; decide, _, _, hRead, _, _, hDue, by decide⟩

end Read

end Escrow

end Dipper
