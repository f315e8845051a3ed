import Dipper.Admin.Transactions

/-! Concurrent calls that set a target act as if one at a time.  A call that holds a row or has
inserted one takes effect when it commits; one that found no open row and has nothing to do takes
effect at a point of its run at which there was none, which may lie before commits of others that
came before its own. -/

namespace Dipper.Admin.Transactions

open Concurrent

/-- A call that was committed, with its outcome and the steps at which it began and committed. -/
structure Entry where
  id : CallId
  call : Call
  begunAt : Nat
  outcome : SetTargetOutcome
  committedAt : Nat
  deriving DecidableEq, Repr

/-- The call alone has the outcome of the entry. -/
def Does (t : Table) (e : Entry) (t' : Table) : Prop := t.setTarget e.call = some (e.outcome, t')

/-- The call as one transaction over the requests has the outcome of the entry. -/
def DoesWhole (r : RequestTable) (e : Entry) (r' : RequestTable) : Prop :=
  r.setIndexingTargetCandidates e.call.key e.call.numCandidates e.call.newId = some (e.outcome, r')

theorem Table.Shows.does (t : Table) (r : RequestTable) (e : Entry) (t' : Table) (h : t.Shows r)
    (hDoes : Does t e t') : ∃ r', DoesWhole r e r' ∧ t'.Shows r' := by
  have hRel := h.setTarget e.call
  rw [hDoes] at hRel
  unfold DoesWhole
  revert hRel
  cases r.setIndexingTargetCandidates e.call.key e.call.numCandidates e.call.newId with
  | none => exact fun hRel => nomatch hRel
  | some done =>
    intro hRel
    cases hRel with
    | some hBoth => exact ⟨done.2, congrArg some (Prod.ext hBoth.1.symm rfl), hBoth.2⟩

def State.Committed (s : State) (e : Entry) : Prop :=
  s.calls.lookup e.id = some ⟨e.call, e.begunAt, .committed e.outcome e.committedAt⟩

/-- Whether an entry may stand before another: that one did not commit before this one began, and
two that had something to do are in the order of their commits. -/
def InOrder (e e' : Entry) : Prop :=
  e.begunAt ≤ e'.committedAt ∧
    (e.outcome ≠ .noOpAlreadyEmpty → e'.outcome ≠ .noOpAlreadyEmpty →
      e.committedAt < e'.committedAt)

section Invariant

variable {start t t' : Table} {log log' : List Entry} {cs ds : CallState} {s s' : State}
  {c : CallId} {phase : Phase} {e : Entry}

theorem does_unique (t : Table) (e : Entry) (t1 t2 : Table) (h1 : Does t e t1)
    (h2 : Does t e t2) : t1 = t2 := by
  have hEq := Option.some.inj (h1.symm.trans h2)
  exact (Prod.mk.inj hEq).2

/-- A point of the call's run at which its key has no open row. -/
def HasSlot (start : Table) (log : List Entry) (cs : CallState) : Prop :=
  Slot Does start (fun t => t.select cs.call.key = none) (fun e => cs.begunAt ≤ e.committedAt) log

/-- What holds of a call: the row it saw is still open, or it has a place at which there is none;
the row it locked is as it read it; and nobody has a row of the key it inserts one for. -/
def CallInv (start t : Table) (log : List Entry) (cs : CallState) : Prop :=
  match cs.phase with
  | .looked id =>
    (∃ row, t.lookup id = some row ∧ row.isOpenFor cs.call.key = true) ∨ HasSlot start log cs
  | .found none => HasSlot start log cs
  | .written none => HasSlot start log cs ∧ (cs.call.numCandidates ≠ 0 →
      t.select cs.call.key = none ∧ t.lookup cs.call.newId = none)
  | .found (some (id, row)) | .written (some (id, row)) =>
    t.lookup id = some row ∧ row.isOpenFor cs.call.key = true
  | _ => True

theorem CallInv.locked {id : IndexingRequestId} {row : StoredRequest} (h : CallInv start t log cs)
    (hLocked : cs.phase.locked = some (id, row)) :
    t.lookup id = some row ∧ row.isOpenFor cs.call.key = true := by
  obtain ⟨call, begunAt, phase⟩ := cs
  cases phase with
  | found found =>
    cases hLocked
    exact h
  | written found =>
    cases hLocked
    exact h
  | _ => cases hLocked

theorem CallInv.inserts (h : CallInv start t log cs) (hInserts : cs.inserts = true) :
    t.select cs.call.key = none ∧ t.lookup cs.call.newId = none := by
  obtain ⟨hPhase, hTarget⟩ := of_decide_eq_true hInserts
  obtain ⟨call, begunAt, phase⟩ := cs
  obtain rfl : phase = .written none := hPhase
  exact h.2 hTarget

/-- Two calls do not hold the same row, nor insert one of the same key or id. -/
structure Apart (cs ds : CallState) : Prop where
  locked : ∀ id row row', cs.phase.locked = some (id, row) → ds.phase.locked ≠ some (id, row')
  inserts : cs.inserts = true → ds.inserts = true →
    cs.call.key ≠ ds.call.key ∧ cs.call.newId ≠ ds.call.newId

theorem Apart.symm (h : Apart cs ds) : Apart ds cs where
  locked id row row' hDs hCs := h.locked id row' row hCs hDs
  inserts hDs hCs := ⟨(h.inserts hCs hDs).1.symm, (h.inserts hCs hDs).2.symm⟩

/-- The committed calls, in an order that replays. -/
structure Ordered (start : Table) (s : State) (log : List Entry) : Prop where
  nodup : (log.map (·.id)).Nodup
  mem : ∀ e, e ∈ log ↔ s.Committed e
  replays : Replays Does start log s.table
  sorted : log.Pairwise InOrder

structure Inv (start : Table) (s : State) (log : List Entry) : Prop where
  oneOpen : OneOpen s.table
  calls : ∀ c cs, s.calls.lookup c = some cs → CallInv start s.table log cs
  apart : ∀ c d cs ds, c ≠ d → s.calls.lookup c = some cs → s.calls.lookup d = some ds → Apart cs ds
  begun : ∀ c cs, s.calls.lookup c = some cs → cs.begunAt < s.clock
  ordered : Ordered start s log
  past : ∀ e ∈ log, e.committedAt < s.clock

theorem Inv.update (h : Inv start s log) (cs : CallState)
    (hOld : ∀ ds outcome at', s.calls.lookup c = some ds → ds.phase ≠ .committed outcome at')
    (hNew : ∀ outcome at', cs.phase ≠ .committed outcome at') (hBegun : cs.begunAt ≤ s.clock)
    (hCall : CallInv start s.table log cs)
    (hApart : ∀ d ds, d ≠ c → s.calls.lookup d = some ds → Apart cs ds) :
    Inv start { s with clock := s.clock + 1, calls := s.calls.insert c cs } log := by
  have hLookup : ∀ d ds, (s.calls.insert c cs).lookup d = some ds →
      (d = c ∧ ds = cs) ∨ (d ≠ c ∧ s.calls.lookup d = some ds) := by
    intro d ds hd
    rw [lookup_insert_eq_ite] at hd
    split at hd
    · rename_i hEq
      exact .inl ⟨hEq, (Option.some.inj hd).symm⟩
    · rename_i hNe
      exact .inr ⟨hNe, hd⟩
  refine ⟨h.oneOpen, ?_, ?_, ?_, ⟨h.ordered.nodup, ?_, h.ordered.replays, h.ordered.sorted⟩, ?_⟩
  · intro d ds hd
    rcases hLookup d ds hd with ⟨-, rfl⟩ | ⟨-, hd⟩
    · exact hCall
    · exact h.calls d ds hd
  · intro d d' ds ds' hNe hd hd'
    rcases hLookup d ds hd with ⟨hSame, rfl⟩ | ⟨hOther, hCalls⟩
    · rcases hLookup d' ds' hd' with ⟨hSame', -⟩ | ⟨hOther', hCalls'⟩
      · exact absurd (hSame.trans hSame'.symm) hNe
      · exact hApart d' ds' hOther' hCalls'
    · rcases hLookup d' ds' hd' with ⟨-, rfl⟩ | ⟨-, hCalls'⟩
      · exact (hApart d ds hOther hCalls).symm
      · exact h.apart d d' ds ds' hNe hCalls hCalls'
  · intro d ds hd
    change ds.begunAt < s.clock + 1
    rcases hLookup d ds hd with ⟨-, rfl⟩ | ⟨-, hd⟩
    · omega
    · have := h.begun d ds hd
      omega
  · intro e
    rw [h.ordered.mem e]
    unfold State.Committed
    rw [lookup_insert_eq_ite]
    split
    · rename_i hEq
      rw [hEq]
      constructor
      · intro hCommitted
        exact absurd rfl (hOld _ _ _ hCommitted)
      · intro hCommitted
        exact absurd (congrArg CallState.phase (Option.some.inj hCommitted)) (hNew _ _)
    · rfl
  · intro e he
    exact Nat.lt_succ_of_lt (h.past e he)

theorem apart_of_free (hLocked : cs.phase.locked = none) (hInserts : cs.inserts = false) :
    Apart cs ds := by
  refine ⟨fun id row row' hSome => ?_, fun hTrue => ?_⟩
  · rw [hLocked] at hSome
    cases hSome
  · rw [hInserts] at hTrue
    cases hTrue

theorem of_lockFree {d : CallId} {id : IndexingRequestId} {row : StoredRequest}
    (h : s.lockFree c id = true) (hNe : d ≠ c) (hd : s.calls.lookup d = some ds) :
    ds.phase.locked ≠ some (id, row) := by
  have hAll := List.all_eq_true.mp h ⟨d, ds⟩ (AList.mem_lookup_iff.mp hd)
  intro hLocked
  simp [hNe, hLocked] at hAll

theorem of_insertFree {d : CallId} {call : Call} (h : s.insertFree c call = true) (hNe : d ≠ c)
    (hd : s.calls.lookup d = some ds) (hInserts : ds.inserts = true) :
    call.key ≠ ds.call.key ∧ call.newId ≠ ds.call.newId := by
  have hAll := List.all_eq_true.mp (Bool.and_eq_true_iff.mp h).2 ⟨d, ds⟩
    (AList.mem_lookup_iff.mp hd)
  simp only [hNe, decide_false, Bool.false_or, hInserts, Bool.not_true, Bool.and_eq_true,
    decide_eq_true_eq] at hAll
  exact ⟨Ne.symm hAll.1, Ne.symm hAll.2⟩

theorem Inv.move (h : Inv start s log) (hCall : s.calls.lookup c = some cs)
    (hMoves : Moves s c cs phase) : Inv start (s.setPhase c cs phase) log := by
  have hInv := h.calls c cs hCall
  have hBegun := Nat.le_of_lt (h.begun c cs hCall)
  obtain ⟨call, begunAt, old⟩ := cs
  have hFacts : (∀ outcome at', old ≠ .committed outcome at') ∧
      (∀ outcome at', phase ≠ .committed outcome at') ∧
      CallInv start s.table log ⟨call, begunAt, phase⟩ ∧
      ∀ d ds, d ≠ c → s.calls.lookup d = some ds → Apart ⟨call, begunAt, phase⟩ ds := by
    cases hMoves with
    | none hPhase hNone =>
      obtain rfl : old = .begun := hPhase
      refine ⟨by simp, by simp, Slot.here h.ordered.replays hNone, fun _ _ _ _ => ?_⟩
      exact apart_of_free rfl (by simp [CallState.inserts])
    | looked hPhase hSome =>
      obtain rfl : old = .begun := hPhase
      refine ⟨by simp, by simp, .inl ⟨_, of_select hSome⟩, fun _ _ _ _ => ?_⟩
      exact apart_of_free rfl (by simp [CallState.inserts])
    | @locked id hPhase hFree =>
      obtain rfl : old = .looked id := hPhase
      refine ⟨by simp, by simp, ?_, fun d ds hNe hds => ?_⟩
      · cases hRecheck : s.table.recheck call.key id with
        | none =>
          -- The row that was seen open no longer is, so there was a time without one.
          rcases hInv with ⟨row, hRow, hOpen⟩ | hSlot
          · rw [recheck_of_open hRow hOpen] at hRecheck
            cases hRecheck
          · exact hSlot
        | some found =>
          obtain ⟨id', row⟩ := found
          obtain ⟨rfl, hFound⟩ := of_recheck hRecheck
          exact hFound
      · refine ⟨fun id' row row' hLocked => ?_, fun hInserts => ?_⟩
        · obtain ⟨rfl, -⟩ := of_recheck hLocked
          exact of_lockFree hFree hNe hds
        · simp [CallState.inserts] at hInserts
    | @written row hPhase hGuard =>
      obtain rfl : old = .found row := hPhase
      refine ⟨by simp, by simp, ?_, fun d ds hNe hds => ?_⟩
      · cases row with
        | none =>
          refine ⟨hInv, fun hTarget => ?_⟩
          obtain ⟨hBoth, -⟩ := Bool.and_eq_true_iff.mp (hGuard rfl hTarget)
          obtain ⟨hSelect, hId⟩ := Bool.and_eq_true_iff.mp hBoth
          exact ⟨Option.isNone_iff_eq_none.mp hSelect, Option.isNone_iff_eq_none.mp hId⟩
        | some found => exact hInv
      · have hBefore := h.apart c d _ ds (Ne.symm hNe) hCall hds
        refine ⟨hBefore.locked, fun hInserts hInserts' => ?_⟩
        obtain ⟨hNone, hTarget⟩ := of_decide_eq_true hInserts
        have hRow : row = none := by simpa using hNone
        exact of_insertFree (hGuard hRow hTarget) hNe hds hInserts'
    | failed hPhase =>
      refine ⟨hPhase, by simp, trivial, fun _ _ _ _ => ?_⟩
      exact apart_of_free rfl (by simp [CallState.inserts])
  obtain ⟨hOld, hNew, hCallInv, hApart⟩ := hFacts
  refine h.update _ (fun ds outcome at' hds => ?_) hNew hBegun hCallInv hApart
  rw [← Option.some.inj (hCall.symm.trans hds)]
  exact hOld outcome at'

end Invariant

section Commit

variable {start t t' : Table} {log log' : List Entry} {cs ds : CallState} {s : State} {c : CallId}
  {row : Option Located} {e : Entry}

/-- What a commit changes: nothing, a row of its own, or the row the call has locked. -/
inductive Changed (t : Table) (cs : CallState) : Table → Prop
  | same : Changed t cs t
  | inserted : cs.inserts = true → Changed t cs (t.insert cs.call.newId cs.call.newRow)
  | updated {id : IndexingRequestId} {row row' : StoredRequest} :
      cs.phase.locked = some (id, row) → row'.key = row.key → Changed t cs (t.insert id row')

theorem changed_of_written (hPhase : cs.phase = .written row) :
    Changed t cs (t.write (cs.call.respond row).2) := by
  have hLocked : cs.phase.locked = row := by
    rw [hPhase]
    rfl
  cases row with
  | none =>
    simp only [Call.respond]
    split
    · exact .same
    · rename_i hTarget
      exact .inserted (decide_eq_true ⟨hPhase, hTarget⟩)
  | some found =>
    obtain ⟨id, row⟩ := found
    simp only [Call.respond]
    split
    · exact .same
    · split
      · exact .updated hLocked rfl
      · exact .updated hLocked rfl

theorem Changed.oneOpen (h : Changed t cs t') (hCs : CallInv start t log cs) (hOne : OneOpen t) :
    OneOpen t' := by
  intro id1 id2 row1 row2 key h1 hOpen1 h2 hOpen2
  cases h with
  | same => exact hOne h1 hOpen1 h2 hOpen2
  | inserted hInserts =>
    have hNone := select_eq_none_iff.mp (hCs.inserts hInserts).1
    have hNew : ∀ {row : StoredRequest}, row = cs.call.newRow → row.isOpenFor key = true →
        cs.call.key = key := by
      rintro row rfl hOpen
      exact (StoredRequest.isOpenFor_iff.mp hOpen).2
    rw [lookup_insert_eq_ite] at h1 h2
    split at h1 <;> split at h2
    · rename_i hId1 hId2
      rw [hId1, hId2]
    · have hKey := hNew (Option.some.inj h1).symm hOpen1
      rw [← hKey, hNone id2 row2 h2] at hOpen2
      cases hOpen2
    · have hKey := hNew (Option.some.inj h2).symm hOpen2
      rw [← hKey, hNone id1 row1 h1] at hOpen1
      cases hOpen1
    · exact hOne h1 hOpen1 h2 hOpen2
  | @updated id row row' hLocked hKey =>
    obtain ⟨hRow, hOpen⟩ := hCs.locked hLocked
    have hOld : ∀ {row1 : StoredRequest}, row1 = row' → row1.isOpenFor key = true →
        row.isOpenFor key = true := by
      intro row1 hRow1 hOpen1
      have hSame := (StoredRequest.isOpenFor_iff.mp hOpen1).2
      rw [hRow1, hKey] at hSame
      exact StoredRequest.isOpenFor_iff.mpr ⟨(StoredRequest.isOpenFor_iff.mp hOpen).1, hSame⟩
    rw [lookup_insert_eq_ite] at h1 h2
    split at h1 <;> split at h2
    · rename_i hId1 hId2
      rw [hId1, hId2]
    · rename_i hId1 _
      rw [hId1]
      exact hOne hRow (hOld (Option.some.inj h1).symm hOpen1) h2 hOpen2
    · rename_i _ hId2
      rw [hId2]
      exact hOne h1 hOpen1 hRow (hOld (Option.some.inj h2).symm hOpen2)
    · exact hOne h1 hOpen1 h2 hOpen2

theorem Changed.locked {id : IndexingRequestId} {row : StoredRequest} (h : Changed t cs t')
    (hCs : CallInv start t log cs) (hApart : Apart cs ds)
    (hLocked : ds.phase.locked = some (id, row)) (hRow : t.lookup id = some row) :
    t'.lookup id = some row := by
  cases h with
  | same => exact hRow
  | inserted hInserts =>
    have hNew := (hCs.inserts hInserts).2
    rw [AList.lookup_insert_ne]
    · exact hRow
    · intro hEq
      rw [hEq, hNew] at hRow
      cases hRow
  | updated hOther hKey =>
    rw [AList.lookup_insert_ne]
    · exact hRow
    · intro hEq
      rw [hEq] at hLocked
      exact hApart.locked _ _ _ hOther hLocked

theorem Changed.inserts (h : Changed t cs t') (hCs : CallInv start t log cs) (hApart : Apart cs ds)
    (hInserts : ds.inserts = true)
    (hFree : t.select ds.call.key = none ∧ t.lookup ds.call.newId = none) :
    t'.select ds.call.key = none ∧ t'.lookup ds.call.newId = none := by
  cases h with
  | same => exact hFree
  | inserted hOther =>
    obtain ⟨hKey, hId⟩ := hApart.inserts hOther hInserts
    exact ⟨select_insert_ne hKey hFree.1, (AList.lookup_insert_ne (Ne.symm hId)).trans hFree.2⟩
  | @updated id row row' hOther hKey =>
    obtain ⟨hRow, hOpen⟩ := hCs.locked hOther
    refine ⟨select_insert_ne (fun hSame => ?_) hFree.1, ?_⟩
    · have hNot := select_eq_none_iff.mp hFree.1 id row hRow
      have hStatus := (StoredRequest.isOpenFor_iff.mp hOpen).1
      rw [StoredRequest.isOpenFor_iff.mpr ⟨hStatus, hKey.symm.trans hSame⟩] at hNot
      cases hNot
    · rw [AList.lookup_insert_ne]
      · exact hFree.2
      · intro hEq
        rw [← hEq, hFree.2] at hRow
        cases hRow

theorem Changed.isOpen {id : IndexingRequestId} {row : StoredRequest} {key : RequestKey}
    (h : Changed t cs t') (hCs : CallInv start t log cs) (hOne : OneOpen t)
    (hRow : t.lookup id = some row) (hOpen : row.isOpenFor key = true) :
    (∃ row', t'.lookup id = some row' ∧ row'.isOpenFor key = true) ∨ t'.select key = none := by
  cases h with
  | same => exact .inl ⟨row, hRow, hOpen⟩
  | inserted hInserts =>
    refine .inl ⟨row, ?_, hOpen⟩
    rw [AList.lookup_insert_ne]
    · exact hRow
    · intro hEq
      rw [hEq, (hCs.inserts hInserts).2] at hRow
      cases hRow
  | @updated id' old new hOther hKey =>
    by_cases hEq : id = id'
    · by_cases hStill : new.isOpenFor key = true
      · exact .inl ⟨new, by rw [hEq]; exact AList.lookup_insert _, hStill⟩
      · refine .inr (select_eq_none_iff.mpr fun id2 row2 hRow2 => ?_)
        rw [lookup_insert_eq_ite] at hRow2
        split at hRow2
        · cases hRow2
          exact Bool.eq_false_iff.mpr hStill
        · rename_i hNe
          refine Bool.eq_false_iff.mpr fun hOpen2 => hNe ?_
          exact (hOne hRow2 hOpen2 hRow hOpen).trans hEq
    · exact .inl ⟨row, (AList.lookup_insert_ne hEq).trans hRow, hOpen⟩

theorem Changed.callInv (h : Changed t cs t') (hCs : CallInv start t log cs)
    (hDs : CallInv start t log ds) (hApart : Apart cs ds) (hOne : OneOpen t)
    (hSlot : HasSlot start log ds → HasSlot start log' ds)
    (hHere : t'.select ds.call.key = none → HasSlot start log' ds) :
    CallInv start t' log' ds := by
  obtain ⟨call, begunAt, phase⟩ := ds
  cases phase with
  | looked id =>
    rcases hDs with ⟨row, hRow, hOpen⟩ | hOld
    · rcases h.isOpen hCs hOne hRow hOpen with hStill | hNone
      · exact .inl hStill
      · exact .inr (hHere hNone)
    · exact .inr (hSlot hOld)
  | found row =>
    cases row with
    | none => exact hSlot hDs
    | some found => exact ⟨h.locked hCs hApart rfl hDs.1, hDs.2⟩
  | written row =>
    cases row with
    | none =>
      refine ⟨hSlot hDs.1, fun hTarget => ?_⟩
      exact h.inserts hCs hApart (decide_eq_true ⟨rfl, hTarget⟩) (hDs.2 hTarget)
    | some found => exact ⟨h.locked hCs hApart rfl hDs.1, hDs.2⟩
  | _ => exact trivial

/-- A call that has something to do could run at its commit. -/
theorem setTarget_of_written (hPhase : cs.phase = .written row) (hCs : CallInv start t log cs)
    (hOne : OneOpen t) (hDoes : row ≠ none ∨ cs.call.numCandidates ≠ 0) :
    t.setTarget cs.call =
      some ((cs.call.respond row).1, t.write (cs.call.respond row).2) := by
  have hSelect : t.select cs.call.key = row ∧
      ¬(row.isNone = true ∧ cs.call.numCandidates ≠ 0 ∧
        (t.lookup cs.call.newId).isSome = true) := by
    cases row with
    | none =>
      have hTarget := hDoes.resolve_left fun h => h rfl
      obtain ⟨hNone, hId⟩ := hCs.inserts (decide_eq_true ⟨hPhase, hTarget⟩)
      refine ⟨hNone, fun h => ?_⟩
      rw [hId] at h
      exact absurd h.2.2 (by simp)
    | some found =>
      have hLocked : cs.phase.locked = some found := by
        rw [hPhase]
        rfl
      obtain ⟨hRow, hOpen⟩ := hCs.locked hLocked
      exact ⟨hOne.select_eq hRow hOpen, fun h => absurd h.1 (by simp)⟩
  unfold Table.setTarget
  rw [hSelect.1]
  exact if_neg hSelect.2

/-- A call with nothing to do can run wherever its key has no open row. -/
theorem setTarget_empty {call : Call} (hNone : t.select call.key = none)
    (hTarget : call.numCandidates = 0) : t.setTarget call = some (.noOpAlreadyEmpty, t) := by
  unfold Table.setTarget
  rw [hNone]
  simp [Call.respond, hTarget, Table.write]

def State.entryOf (s : State) (c : CallId) (cs : CallState) (row : Option Located) : Entry where
  id := c
  call := cs.call
  begunAt := cs.begunAt
  outcome := (cs.call.respond row).1
  committedAt := s.clock

theorem Inv.commitAs (h : Inv start s log) (hCall : s.calls.lookup c = some cs)
    (hPhase : cs.phase = .written row)
    (hMem : ∀ e, e ∈ log' ↔ e ∈ log ∨ e = s.entryOf c cs row) (hNodup : (log'.map (·.id)).Nodup)
    (hReplays : Replays Does start log' (s.table.write (cs.call.respond row).2))
    (hSorted : log'.Pairwise InOrder)
    (hSlots : ∀ ds : CallState, ds.begunAt ≤ s.clock →
      HasSlot start log ds → HasSlot start log' ds) :
    Inv start { s.setPhase c cs (.committed (cs.call.respond row).1 s.clock) with
      table := s.table.write (cs.call.respond row).2 } log' := by
  have hCs := h.calls c cs hCall
  have hChanged : Changed s.table cs (s.table.write (cs.call.respond row).2) :=
    changed_of_written hPhase
  have hLookup : ∀ d ds, (s.calls.insert c { cs with
      phase := .committed (cs.call.respond row).1 s.clock }).lookup d = some ds →
      (d = c ∧ ds = { cs with phase := .committed (cs.call.respond row).1 s.clock }) ∨
        (d ≠ c ∧ s.calls.lookup d = some ds) := by
    intro d ds hd
    rw [lookup_insert_eq_ite] at hd
    split at hd
    · rename_i hEq
      exact .inl ⟨hEq, (Option.some.inj hd).symm⟩
    · rename_i hNe
      exact .inr ⟨hNe, hd⟩
  refine ⟨hChanged.oneOpen hCs h.oneOpen, ?_, ?_, ?_, ⟨hNodup, ?_, hReplays, hSorted⟩, ?_⟩
  · intro d ds hd
    rcases hLookup d ds hd with ⟨-, rfl⟩ | ⟨hNe, hCalls⟩
    · exact trivial
    · have hBegun := Nat.le_of_lt (h.begun d ds hCalls)
      have hApart := h.apart c d cs ds (Ne.symm hNe) hCall hCalls
      exact hChanged.callInv hCs (h.calls d ds hCalls) hApart h.oneOpen (hSlots ds hBegun)
        fun hNone => Slot.here hReplays hNone
  · intro d d' ds ds' hNe hd hd'
    rcases hLookup d ds hd with ⟨-, rfl⟩ | ⟨-, hCalls⟩
    · exact apart_of_free rfl (by simp [CallState.inserts])
    · rcases hLookup d' ds' hd' with ⟨-, rfl⟩ | ⟨-, hCalls'⟩
      · exact (apart_of_free rfl (by simp [CallState.inserts])).symm
      · exact h.apart d d' ds ds' hNe hCalls hCalls'
  · intro d ds hd
    rcases hLookup d ds hd with ⟨-, rfl⟩ | ⟨-, hCalls⟩
    · exact Nat.lt_succ_of_lt (h.begun c cs hCall)
    · exact Nat.lt_succ_of_lt (h.begun d ds hCalls)
  · intro e
    rw [hMem e, h.ordered.mem e]
    unfold State.Committed
    change _ ↔ AList.lookup e.id (s.calls.insert c _) = _
    rw [lookup_insert_eq_ite]
    split
    · rename_i hEq
      constructor
      · rintro (hOld | rfl)
        · rw [hEq, hCall] at hOld
          rw [Option.some.inj hOld] at hPhase
          cases hPhase
        · rfl
      · intro hNew
        obtain ⟨id, call, begunAt, outcome, committedAt⟩ := e
        obtain rfl : id = c := hEq
        cases hNew
        exact .inr rfl
    · rename_i hNe
      constructor
      · rintro (hOld | rfl)
        · exact hOld
        · exact absurd rfl hNe
      · exact .inl
  · intro e he
    rcases (hMem e).mp he with hOld | rfl
    · exact Nat.lt_succ_of_lt (h.past e hOld)
    · exact Nat.lt_succ_self _

theorem Inv.commit (h : Inv start s log) (hCall : s.calls.lookup c = some cs)
    (hPhase : cs.phase = .written row) :
    ∃ log', Inv start { s.setPhase c cs (.committed (cs.call.respond row).1 s.clock) with
      table := s.table.write (cs.call.respond row).2 } log' := by
  have hCs := h.calls c cs hCall
  have hBegun : ∀ e ∈ log, e.begunAt ≤ s.clock := fun e he =>
    Nat.le_of_lt (h.begun e.id _ ((h.ordered.mem e).mp he))
  have hFresh : ∀ e ∈ log, e.id ≠ c := by
    rintro e he rfl
    have hCommitted := (h.ordered.mem e).mp he
    rw [State.Committed, hCall] at hCommitted
    rw [Option.some.inj hCommitted] at hPhase
    cases hPhase
  by_cases hDoes : row ≠ none ∨ cs.call.numCandidates ≠ 0
  · -- The call holds a row or has inserted one: it takes effect now.
    refine ⟨log ++ [s.entryOf c cs row], h.commitAs hCall hPhase ?_ ?_ ?_ ?_ ?_⟩
    · intro e
      rw [List.mem_append, List.mem_singleton]
    · rw [List.map_append, List.nodup_append]
      refine ⟨h.ordered.nodup, List.nodup_singleton _, ?_⟩
      intro id hId id' hId'
      obtain ⟨e, he, rfl⟩ := List.mem_map.mp hId
      rw [List.map_singleton, List.mem_singleton] at hId'
      rw [hId']
      exact hFresh e he
    · exact h.ordered.replays.concat (setTarget_of_written hPhase hCs h.oneOpen hDoes)
    · refine List.pairwise_append.mpr ⟨h.ordered.sorted, List.pairwise_singleton _ _, ?_⟩
      intro e he e' he'
      rw [List.mem_singleton.mp he']
      exact ⟨hBegun e he, fun _ _ => h.past e he⟩
    · exact fun ds hds hSlot => hSlot.concat hds
  · -- It found no row and has nothing to do: it goes to its place.
    rw [not_or, not_not, not_not] at hDoes
    obtain ⟨rfl, hTarget⟩ := hDoes
    have hSlot : HasSlot start log cs := by
      obtain ⟨call, begunAt, phase⟩ := cs
      obtain rfl : phase = .written none := hPhase
      exact hCs.1
    obtain ⟨before, rest, t, rfl, hBefore, hFree, hLate⟩ := hSlot
    have hRespond : cs.call.respond none = (.noOpAlreadyEmpty, none) := if_pos hTarget
    have hSame : Does t (s.entryOf c cs none) t := by
      unfold Does State.entryOf
      rw [hRespond]
      exact setTarget_empty hFree hTarget
    obtain ⟨hSortedBefore, hSortedRest, hAcross⟩ := List.pairwise_append.mp h.ordered.sorted
    refine ⟨before ++ s.entryOf c cs none :: rest, h.commitAs hCall hPhase ?_ ?_ ?_ ?_ ?_⟩
    · intro e
      rw [List.mem_append, List.mem_append, List.mem_cons]
      tauto
    · have hNodup := h.ordered.nodup
      rw [List.map_append] at hNodup ⊢
      rw [List.map_cons]
      refine (List.perm_middle.nodup_iff).mpr (List.nodup_cons.mpr ⟨fun hMem => ?_, hNodup⟩)
      rw [← List.map_append] at hMem
      obtain ⟨e, he, hId⟩ := List.mem_map.mp hMem
      exact hFresh e he hId
    · rw [hRespond]
      exact Replays.insert does_unique hBefore hSame h.ordered.replays
    · refine List.pairwise_append.mpr ⟨hSortedBefore, List.pairwise_cons.mpr ⟨?_, hSortedRest⟩, ?_⟩
      · intro e he
        refine ⟨hLate e he, fun hOutcome => ?_⟩
        exact absurd (congrArg Prod.fst hRespond) hOutcome
      · intro e he e' he'
        rcases List.mem_cons.mp he' with rfl | hRest
        · refine ⟨hBegun e (List.mem_append_left _ he), fun _ hOutcome => ?_⟩
          exact absurd (congrArg Prod.fst hRespond) hOutcome
        · exact hAcross e he e' hRest
    · exact fun ds hds hOther => Slot.insert does_unique hBefore hSame hds hOther

theorem Inv.step {s' : State} {e : Step} (h : Inv start s log) (hStep : Stepped s e s') :
    ∃ log', Inv start s' log' := by
  cases hStep with
  | start hNew =>
    refine ⟨log, h.update _ (fun ds outcome at' hds => ?_) (by simp) (Nat.le_refl _) trivial ?_⟩
    · rw [hNew] at hds
      cases hds
    · exact fun d ds _ _ => apart_of_free rfl (by simp [CallState.inserts])
  | move _ hCall hMoves => exact ⟨log, h.move hCall hMoves⟩
  | commit hCall hPhase => exact h.commit hCall hPhase

theorem inv_init (hOne : OneOpen start) : Inv start { table := start } [] := by
  refine ⟨hOne, ?_, ?_, ?_, ⟨List.nodup_nil, ?_, .nil, List.Pairwise.nil⟩, ?_⟩
  · intro c cs hc
    cases hc
  · intro c d cs ds _ hc
    cases hc
  · intro c cs hc
    cases hc
  · intro e
    refine ⟨fun he => absurd he List.not_mem_nil, fun he => ?_⟩
    cases he
  · exact fun e he => absurd he List.not_mem_nil

theorem inv_run {steps : List Step} {s' : State} (h : Inv start s log)
    (hRun : s.run steps = some s') : ∃ log', Inv start s' log' := by
  induction steps generalizing s log with
  | nil =>
    cases hRun
    exact ⟨log, h⟩
  | cons e steps ih =>
    obtain ⟨s1, hStep, hRest⟩ := Option.bind_eq_some_iff.mp hRun
    obtain ⟨log1, h1⟩ := h.step (stepped_of_step hStep)
    exact ih h1 hRest

end Commit

/-- Whatever concurrent calls do, each key has at most one open request; the successful calls can be
ordered so that one at a time they have the same outcomes and give the same table, where calls that
had something to do stand in the order of their commits and none stands before one that committed
before it began; and only a commit changes the table. -/
theorem set_target_linearizable (start : Table) (hStart : OneOpen start) (steps : List Step)
    (s : State) (hRun : State.run { table := start } steps = some s) :
    OneOpen s.table ∧
    (∃ log : List Entry, (log.map (·.id)).Nodup ∧ (∀ e, e ∈ log ↔ s.Committed e) ∧
      Replays Does start log s.table ∧ log.Pairwise InOrder) ∧
    ∀ e s', s.step e = some s' → (∀ c, e ≠ .commit c) → s'.table = s.table := by
  obtain ⟨log, hInv⟩ := inv_run (inv_init hStart) hRun
  refine ⟨hInv.oneOpen, ⟨log, hInv.ordered.nodup, hInv.ordered.mem, hInv.ordered.replays,
    hInv.ordered.sorted⟩, fun e s' hStep hNot => ?_⟩
  exact (stepped_of_step hStep).table_eq hNot

/-- Whatever concurrent calls do, the requests are those that the successful calls leave as whole
transactions, run one after another in such an order with the same outcomes. -/
theorem calls_refine_transactions (start : Table) (r : RequestTable) (hStart : start.Shows r)
    (steps : List Step) (s : State) (hRun : State.run { table := start } steps = some s) :
    ∃ (log : List Entry) (r' : RequestTable), (log.map (·.id)).Nodup ∧
      (∀ e, e ∈ log ↔ s.Committed e) ∧ log.Pairwise InOrder ∧ Replays DoesWhole r log r' ∧
      s.table.Shows r' := by
  obtain ⟨log, hInv⟩ := inv_run (inv_init hStart.oneOpen) hRun
  obtain ⟨r', hReplays, hShows⟩ := hInv.ordered.replays.simulates Table.Shows.does hStart
  exact ⟨log, r', hInv.ordered.nodup, hInv.ordered.mem, hInv.ordered.sorted, hReplays, hShows⟩

section Sample

def sampleKey : RequestKey := ⟨7, "QmTXzATwNfgGVukV1fX2T6xw9f6LAYRVWpsdXyRWzUR2H9", 42161⟩

/-- Call 0 sets the target to 0 and sees no request; call 1 sets it to 5 and commits first. -/
def overtaken : List Step :=
  [.start 0 ⟨sampleKey, 0, 10, 100⟩, .look 0, .write 0,
    .start 1 ⟨sampleKey, 5, 11, 101⟩, .look 1, .write 1, .commit 1, .commit 0]

def emptied : Entry := ⟨0, ⟨sampleKey, 0, 10, 100⟩, 0, .noOpAlreadyEmpty, 7⟩

def opened : Entry := ⟨1, ⟨sampleKey, 5, 11, 101⟩, 3, .inserted 11, 6⟩

theorem oneOpen_empty : OneOpen ∅ := by
  intro id id' row row' key hRow
  cases hRow

theorem exists_overtaken : ∃ s, State.run { table := ∅ } overtaken = some s ∧
    ∀ e, s.Committed e ↔ e = opened ∨ e = emptied := by
  have hRun : (State.run { table := ∅ } overtaken).any (fun s => s.calls.entries =
      [⟨0, ⟨emptied.call, 0, .committed .noOpAlreadyEmpty 7⟩⟩,
        ⟨1, ⟨opened.call, 3, .committed (.inserted 11) 6⟩⟩]) = true := by decide +kernel
  obtain ⟨s, hSome, hCalls⟩ := (Option.any_eq_true _ _).mp hRun
  have hEntries := of_decide_eq_true hCalls
  refine ⟨s, hSome, fun e => ?_⟩
  refine AList.mem_lookup_iff.trans ?_
  rw [hEntries]
  obtain ⟨id, call, begunAt, outcome, committedAt⟩ := e
  simp only [opened, emptied, List.mem_cons, List.not_mem_nil, or_false, Sigma.mk.injEq,
    heq_eq_eq, CallState.mk.injEq, Phase.committed.injEq, Entry.mk.injEq]
  tauto

end Sample

/-- Call 0 commits last, but it saw no request: run after call 1 it would have canceled one. -/
theorem commit_order_differs : ∃ s, State.run { table := ∅ } overtaken = some s ∧
    ¬∃ log : List Entry, (∀ e, e ∈ log ↔ s.Committed e) ∧
      (log.Pairwise fun e e' => e.committedAt < e'.committedAt) ∧ Replays Does ∅ log s.table := by
  obtain ⟨s, hRun, hCommitted⟩ := exists_overtaken
  refine ⟨s, hRun, ?_⟩
  rintro ⟨log, hMem, hSorted, hReplays⟩
  have hLog : log = [opened, emptied] := by
    have hNodup : log.Nodup := hSorted.imp fun hLt hEq => by
      rw [hEq] at hLt
      omega
    have hPerm : log.Perm [opened, emptied] := by
      refine (List.perm_ext_iff_of_nodup hNodup (by decide)).mpr fun e => ?_
      rw [hMem, hCommitted]
      simp
    refine hPerm.eq_of_pairwise (fun e e' _ _ hLt hLt' => ?_) hSorted (by decide)
    omega
  rw [hLog] at hReplays
  cases hReplays with
  | cons hOpened hRest =>
    cases hRest with
    | cons hEmptied _ =>
      have hBoth : ((Table.setTarget ∅ opened.call).bind fun r => r.2.setTarget emptied.call).map
          (·.1) = some (.canceled 11) := by decide +kernel
      rw [hOpened, Option.bind_some, hEmptied] at hBoth
      cases hBoth

theorem set_target_linearizable_overtaken :
    ∃ s, State.run { table := ∅ } overtaken = some s ∧ OneOpen s.table ∧
      ∃ log : List Entry, (∀ e, e ∈ log ↔ s.Committed e) ∧ Replays Does ∅ log s.table := by
  obtain ⟨s, hRun, -⟩ := exists_overtaken
  obtain ⟨hOne, ⟨log, -, hMem, hReplays, -⟩, -⟩ :=
    set_target_linearizable ∅ oneOpen_empty overtaken s hRun
  exact ⟨s, hRun, hOne, log, hMem, hReplays⟩

theorem calls_refine_transactions_overtaken :
    ∃ s log r', State.run { table := ∅ } overtaken = some s ∧
      (∀ e, e ∈ log ↔ e = opened ∨ e = emptied) ∧ Replays DoesWhole .empty log r' ∧
      s.table.Shows r' := by
  obtain ⟨s, hRun, hCommitted⟩ := exists_overtaken
  obtain ⟨log, r', -, hMem, -, hReplays, hShows⟩ :=
    calls_refine_transactions ∅ .empty (fun _ => rfl) overtaken s hRun
  exact ⟨s, log, r', hRun, fun e => (hMem e).trans (hCommitted e), hReplays, hShows⟩

end Dipper.Admin.Transactions
