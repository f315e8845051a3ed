import Dipper.Admin.Requests
import Dipper.Concurrent.Linear

/-! The transactions of concurrent calls that set a target, statement by statement.  Each statement
sees what is committed when it begins; `FOR UPDATE` waits for the lock of the row it saw and looks
at the row again once it has it; the partial unique index keeps an insert waiting while another call
has an open row of the key or is inserting one. -/

namespace Dipper.Admin.Transactions

open Concurrent

/-- A row of `dipper_reg_indexing_requests`. -/
structure StoredRequest extends RequestRow where
  createdAt : Nat
  updatedAt : Nat
  deriving DecidableEq, Repr

abbrev Table : Type := AList fun _ : IndexingRequestId => StoredRequest

/-- A call, with the id a new row would get and the time its transaction began. -/
structure Call where
  key : RequestKey
  numCandidates : Nat
  newId : IndexingRequestId
  now : Nat
  deriving DecidableEq, Repr

abbrev Located : Type := IndexingRequestId × StoredRequest

def StoredRequest.isOpenFor (row : StoredRequest) (key : RequestKey) : Bool :=
  row.status = .opened && row.key = key

def Table.select (t : Table) (key : RequestKey) : Option Located :=
  (t.entries.find? fun e => e.2.isOpenFor key).map fun e => (e.1, e.2)

def Call.newRow (call : Call) : StoredRequest where
  status := .opened
  deploymentId := call.key.deploymentId
  deploymentChainId := call.key.deploymentChainId
  numCandidates := call.numCandidates
  requestedBy := call.key.requestedBy
  createdAt := call.now
  updatedAt := call.now

/-- What a call does, given what it found: its outcome and the row it writes. -/
def Call.respond (call : Call) : Option Located → SetTargetOutcome × Option Located
  | none =>
    if call.numCandidates = 0 then (.noOpAlreadyEmpty, none)
    else (.inserted call.newId, some (call.newId, call.newRow))
  | some (id, row) =>
    if row.numCandidates = call.numCandidates then (.noOp id, none)
    else if call.numCandidates = 0 then
      (.canceled id, some (id, { row with status := .canceled, updatedAt := call.now }))
    else
      (.updated id call.numCandidates,
        some (id, { row with numCandidates := call.numCandidates, updatedAt := call.now }))

def Table.write (t : Table) : Option Located → Table
  | none => t
  | some (id, row) => t.insert id row

/-- A call that runs alone; an id that is taken fails the insert. -/
def Table.setTarget (t : Table) (call : Call) : Option (SetTargetOutcome × Table) :=
  let found := t.select call.key
  let (outcome, write) := call.respond found
  if found.isNone ∧ call.numCandidates ≠ 0 ∧ (t.lookup call.newId).isSome then none
  else some (outcome, t.write write)

section Steps

abbrev CallId : Type := Nat

/-- How far a call is: begun, having seen an open row, having read it under its lock or found none,
having written, and done. -/
inductive Phase : Type
  | begun
  | looked (id : IndexingRequestId)
  | found (row : Option Located)
  | written (row : Option Located)
  | committed (outcome : SetTargetOutcome) (at' : Nat)
  | failed
  deriving DecidableEq, Repr

structure CallState where
  call : Call
  begunAt : Nat
  phase : Phase
  deriving DecidableEq, Repr

def Phase.locked : Phase → Option Located
  | .found row | .written row => row
  | _ => none

/-- Whether a call has inserted a row that is not committed. -/
def CallState.inserts (cs : CallState) : Bool :=
  cs.phase = .written none ∧ cs.call.numCandidates ≠ 0

/-- What is committed, the number of steps so far, and the calls. -/
structure State where
  table : Table
  clock : Nat := 0
  calls : AList fun _ : CallId => CallState := ∅

inductive Step : Type
  | start (c : CallId) (call : Call)
  | look (c : CallId)
  | lock (c : CallId)
  | write (c : CallId)
  | commit (c : CallId)
  | fail (c : CallId)
  deriving DecidableEq, Repr

def State.setPhase (s : State) (c : CallId) (cs : CallState) (phase : Phase) : State :=
  { s with clock := s.clock + 1, calls := s.calls.insert c { cs with phase := phase } }

def State.lockFree (s : State) (c : CallId) (id : IndexingRequestId) : Bool :=
  s.calls.entries.all fun e => e.1 = c || e.2.phase.locked.all (·.1 ≠ id)

/-- The insert of a call violates neither the primary key nor the partial unique index, and no other
call is inserting such a row. -/
def State.insertFree (s : State) (c : CallId) (call : Call) : Bool :=
  (s.table.select call.key).isNone && (s.table.lookup call.newId).isNone &&
    s.calls.entries.all fun e =>
      e.1 = c || !e.2.inserts || (e.2.call.key ≠ call.key && e.2.call.newId ≠ call.newId)

/-- A row looked at again under its lock: it counts if it is still open. -/
def Table.recheck (t : Table) (key : RequestKey) (id : IndexingRequestId) : Option Located :=
  ((t.lookup id).filter (·.isOpenFor key)).map fun row => (id, row)

/-- One step, nothing where it has to wait or is not the call's next.  A call may fail at any time,
also where it would have to wait for ever. -/
def State.step (s : State) : Step → Option State
  | .start c call =>
    if (s.calls.lookup c).isSome then none
    else some { s with clock := s.clock + 1, calls := s.calls.insert c ⟨call, s.clock, .begun⟩ }
  | .look c => do
    let cs ← s.calls.lookup c
    match cs.phase with
    | .begun =>
      match s.table.select cs.call.key with
      | none => some (s.setPhase c cs (.found none))
      | some (id, _) => some (s.setPhase c cs (.looked id))
    | _ => none
  | .lock c => do
    let cs ← s.calls.lookup c
    match cs.phase with
    | .looked id =>
      if s.lockFree c id then some (s.setPhase c cs (.found (s.table.recheck cs.call.key id)))
      else none
    | _ => none
  | .write c => do
    let cs ← s.calls.lookup c
    match cs.phase with
    | .found row =>
      if row.isNone ∧ cs.call.numCandidates ≠ 0 ∧ !s.insertFree c cs.call then none
      else some (s.setPhase c cs (.written row))
    | _ => none
  | .commit c => do
    let cs ← s.calls.lookup c
    match cs.phase with
    | .written row =>
      let (outcome, write) := cs.call.respond row
      some { s.setPhase c cs (.committed outcome s.clock) with table := s.table.write write }
    | _ => none
  | .fail c => do
    let cs ← s.calls.lookup c
    match cs.phase with
    | .committed _ _ | .failed => none
    | _ => some (s.setPhase c cs .failed)

def State.run (s : State) (steps : List Step) : Option State := steps.foldlM State.step s

end Steps

section Tables

variable {t : Table} {key : RequestKey} {id : IndexingRequestId} {row : StoredRequest}

def OneOpen (t : Table) : Prop :=
  ∀ {id id' row row' key}, t.lookup id = some row → row.isOpenFor key = true →
    t.lookup id' = some row' → row'.isOpenFor key = true → id = id'

theorem StoredRequest.isOpenFor_iff :
    row.isOpenFor key = true ↔ row.status = .opened ∧ row.key = key := by
  unfold isOpenFor
  rw [Bool.and_eq_true, decide_eq_true_iff, decide_eq_true_iff]

theorem of_select (h : t.select key = some (id, row)) :
    t.lookup id = some row ∧ row.isOpenFor key = true := by
  obtain ⟨e, hFind, hEq⟩ := Option.map_eq_some_iff.mp h
  obtain ⟨rfl, rfl⟩ := Prod.mk.inj hEq
  have hOpen : e.2.isOpenFor key = true := by simpa using List.find?_some hFind
  exact ⟨AList.mem_lookup_iff.mpr (List.mem_of_find?_eq_some hFind), hOpen⟩

theorem select_eq_none_iff : t.select key = none ↔
    ∀ id row, t.lookup id = some row → row.isOpenFor key = false := by
  unfold Table.select
  rw [Option.map_eq_none_iff, List.find?_eq_none]
  constructor
  · intro h id row hRow
    exact Bool.eq_false_iff.mpr (h ⟨id, row⟩ (AList.mem_lookup_iff.mp hRow))
  · intro h e he
    exact Bool.eq_false_iff.mp (h e.1 e.2 (AList.mem_lookup_iff.mpr he))

theorem OneOpen.select_eq (h : OneOpen t) (hRow : t.lookup id = some row)
    (hOpen : row.isOpenFor key = true) : t.select key = some (id, row) := by
  cases hSelect : t.select key with
  | none =>
    rw [select_eq_none_iff.mp hSelect id row hRow] at hOpen
    cases hOpen
  | some found =>
    obtain ⟨hRow', hOpen'⟩ := of_select hSelect
    obtain hId := h hRow' hOpen' hRow hOpen
    rw [hId, hRow] at hRow'
    rw [← hId]
    obtain ⟨id', row'⟩ := found
    rw [Option.some.inj hRow']

theorem of_recheck (h : t.recheck key id = some (id', row)) :
    id' = id ∧ t.lookup id = some row ∧ row.isOpenFor key = true := by
  obtain ⟨row', hFilter, hEq⟩ := Option.map_eq_some_iff.mp h
  obtain ⟨rfl, rfl⟩ := Prod.mk.inj hEq
  obtain ⟨hRow, hOpen⟩ := Option.filter_eq_some_iff.mp hFilter
  exact ⟨rfl, hRow, hOpen⟩

theorem recheck_of_open (hRow : t.lookup id = some row) (hOpen : row.isOpenFor key = true) :
    t.recheck key id = some (id, row) := by
  unfold Table.recheck
  rw [hRow]
  simp [hOpen]

theorem select_insert_ne (hNew : row.key ≠ key) (h : t.select key = none) :
    Table.select (t.insert id row) key = none := by
  refine select_eq_none_iff.mpr fun id' row' hRow => ?_
  rw [lookup_insert_eq_ite] at hRow
  split at hRow
  · cases hRow
    refine Bool.eq_false_iff.mpr fun hOpen => hNew (StoredRequest.isOpenFor_iff.mp hOpen).2
  · exact select_eq_none_iff.mp h id' row' hRow

end Tables

section Alone

variable {t : Table} {r : RequestTable} {key : RequestKey} {id : IndexingRequestId}

/-- The requests are the rows of the table, without their times. -/
def Table.Shows (t : Table) (r : RequestTable) : Prop :=
  ∀ id, r.rows.lookup id = (t.lookup id).map (·.toRequestRow)

theorem Table.Shows.oneOpen (h : t.Shows r) : OneOpen t := by
  intro id id' row row' key hRow hOpenFor hRow' hOpenFor'
  obtain ⟨hOpen, hKey⟩ := StoredRequest.isOpenFor_iff.mp hOpenFor
  obtain ⟨hOpen', hKey'⟩ := StoredRequest.isOpenFor_iff.mp hOpenFor'
  refine r.oneOpen ?_ ?_ hOpen hOpen' (hKey.trans hKey'.symm)
  · rw [h, hRow]
    rfl
  · rw [h, hRow']
    rfl

theorem Table.Shows.insert (h : t.Shows r) {r' : RequestTable} {row : StoredRequest}
    (hRows : r'.rows = r.rows.insert id row.toRequestRow) : Table.Shows (t.insert id row) r' := by
  intro id'
  rw [hRows, lookup_insert_eq_ite, lookup_insert_eq_ite]
  split
  · rfl
  · exact h id'

theorem Table.Shows.findOpen_none (h : t.Shows r) (hNone : t.select key = none) :
    r.findOpen key = none := by
  cases hFound : r.findOpen key with
  | none => rfl
  | some e =>
    obtain ⟨hRow, hOpen, hKey⟩ := RequestTable.of_findOpen hFound
    rw [h] at hRow
    obtain ⟨row, hStored, hEq⟩ := Option.map_eq_some_iff.mp hRow
    have hMiss := select_eq_none_iff.mp hNone _ row hStored
    rw [Bool.eq_false_iff] at hMiss
    exact absurd (StoredRequest.isOpenFor_iff.mpr ⟨hEq ▸ hOpen, hEq ▸ hKey⟩) hMiss

theorem Table.Shows.findOpen_some (h : t.Shows r) {row : StoredRequest}
    (hSome : t.select key = some (id, row)) : r.findOpen key = some ⟨id, row.toRequestRow⟩ := by
  obtain ⟨hStored, hOpenFor⟩ := of_select hSome
  obtain ⟨hOpen, hKey⟩ := StoredRequest.isOpenFor_iff.mp hOpenFor
  have hRow : r.rows.lookup id = some row.toRequestRow := by rw [h, hStored]; rfl
  cases hFound : r.findOpen key with
  | none => exact absurd hKey (RequestTable.of_findOpen_none hFound hRow hOpen)
  | some e =>
    obtain ⟨id', row'⟩ := e
    obtain ⟨hRow', hOpen', hKey'⟩ := RequestTable.of_findOpen hFound
    obtain rfl := r.oneOpen hRow hRow' hOpen hOpen' (hKey.trans hKey'.symm)
    rw [Option.some.inj (hRow.symm.trans hRow')]

/-- A call that runs alone is the whole transaction: it fails where that does, and otherwise has its
outcome and leaves its rows. -/
theorem Table.Shows.setTarget (h : t.Shows r) (call : Call) :
    Option.Rel (fun done done' => done.1 = done'.1 ∧ done.2.Shows done'.2) (t.setTarget call)
      (r.setIndexingTargetCandidates call.key call.numCandidates call.newId) := by
  have hTaken : (r.rows.lookup call.newId).isSome = (t.lookup call.newId).isSome := by
    rw [h, Option.isSome_map]
  unfold RequestTable.setIndexingTargetCandidates
  split
  · rename_i hNone
    cases hSelect : t.select call.key with
    | some found => cases hNone.symm.trans (h.findOpen_some hSelect)
    | none =>
      unfold Table.setTarget
      rw [hSelect]
      by_cases hEmpty : call.numCandidates = 0
      · simp only [hEmpty, Call.respond, if_true, ne_eq, not_true, false_and, and_false, if_false]
        exact .some ⟨rfl, h⟩
      · by_cases hHas : (t.lookup call.newId).isSome = true
        · simp only [hEmpty, hHas, hTaken, Option.isNone_none, ne_eq, not_false_eq_true, and_self,
            if_true, if_false]
          exact .none
        · dsimp only
          rw [if_neg hEmpty, if_neg fun hBad => hHas hBad.2.2, if_neg (hTaken ▸ hHas)]
          simp only [Call.respond, hEmpty, if_false]
          exact .some ⟨rfl, h.insert rfl⟩
  · rename_i id row hSome
    cases hSelect : t.select call.key with
    | none => cases hSome.symm.trans (h.findOpen_none hSelect)
    | some found =>
      cases Option.some.inj (hSome.symm.trans (h.findOpen_some hSelect))
      unfold Table.setTarget
      rw [hSelect]
      simp only [Call.respond, Option.isNone_some, Bool.false_eq_true, false_and, if_false]
      by_cases hSame : found.2.numCandidates = call.numCandidates
      · simp only [hSame, if_true]
        exact .some ⟨rfl, h⟩
      · simp only [hSame, if_false]
        by_cases hEmpty : call.numCandidates = 0
        · simp only [hEmpty, if_true]
          exact .some ⟨rfl, h.insert rfl⟩
        · simp only [hEmpty, if_false]
          exact .some ⟨rfl, h.insert rfl⟩

end Alone

section Inversion

variable {s s' : State} {c : CallId} {cs : CallState}

/-- The steps of a call that leave what is committed. -/
inductive Moves (s : State) (c : CallId) (cs : CallState) : Phase → Prop
  | none : cs.phase = .begun → s.table.select cs.call.key = none → Moves s c cs (.found none)
  | looked {id : IndexingRequestId} {row : StoredRequest} : cs.phase = .begun →
      s.table.select cs.call.key = some (id, row) → Moves s c cs (.looked id)
  | locked {id : IndexingRequestId} : cs.phase = .looked id → s.lockFree c id = true →
      Moves s c cs (.found (s.table.recheck cs.call.key id))
  | written {row : Option Located} : cs.phase = .found row →
      (row = none → cs.call.numCandidates ≠ 0 → s.insertFree c cs.call = true) →
      Moves s c cs (.written row)
  | failed : (∀ outcome at', cs.phase ≠ .committed outcome at') → Moves s c cs .failed

inductive Stepped (s : State) : Step → State → Prop
  | start {c : CallId} {call : Call} : s.calls.lookup c = none → Stepped s (.start c call)
      { s with clock := s.clock + 1, calls := s.calls.insert c ⟨call, s.clock, .begun⟩ }
  | move {e : Step} {c : CallId} {cs : CallState} {phase : Phase} : (∀ d, e ≠ .commit d) →
      s.calls.lookup c = some cs → Moves s c cs phase → Stepped s e (s.setPhase c cs phase)
  | commit {c : CallId} {cs : CallState} {row : Option Located} : s.calls.lookup c = some cs →
      cs.phase = .written row → Stepped s (.commit c)
      { s.setPhase c cs (.committed (cs.call.respond row).1 s.clock) with
        table := s.table.write (cs.call.respond row).2 }

theorem stepped_of_step {e : Step} (h : s.step e = some s') : Stepped s e s' := by
  cases e with
  | start c call =>
    simp only [State.step] at h
    split at h
    · cases h
    · rename_i hNew
      cases h
      exact .start (by simpa using hNew)
  | look c =>
    obtain ⟨cs, hCall, h⟩ := Option.bind_eq_some_iff.mp h
    split at h
    · rename_i hPhase
      split at h
      · rename_i hNone
        cases h
        exact .move (by simp) hCall (.none hPhase hNone)
      · rename_i hSome
        cases h
        exact .move (by simp) hCall (.looked hPhase hSome)
    · cases h
  | lock c =>
    obtain ⟨cs, hCall, h⟩ := Option.bind_eq_some_iff.mp h
    split at h
    · rename_i hPhase
      split at h
      · rename_i hFree
        cases h
        exact .move (by simp) hCall (.locked hPhase hFree)
      · cases h
    · cases h
  | write c =>
    obtain ⟨cs, hCall, h⟩ := Option.bind_eq_some_iff.mp h
    split at h
    · rename_i row hPhase
      split at h
      · cases h
      · rename_i hGuard
        cases h
        refine .move (by simp) hCall (.written hPhase fun hNone hTarget => ?_)
        by_contra hTaken
        exact hGuard ⟨by rw [hNone]; rfl, hTarget, by simpa using hTaken⟩
    · cases h
  | commit c =>
    obtain ⟨cs, hCall, h⟩ := Option.bind_eq_some_iff.mp h
    split at h
    · rename_i row hPhase
      cases h
      exact .commit hCall hPhase
    · cases h
  | fail c =>
    obtain ⟨cs, hCall, h⟩ := Option.bind_eq_some_iff.mp h
    split at h
    · cases h
    · cases h
    · rename_i hCommitted _
      cases h
      exact .move (by simp) hCall (.failed hCommitted)

theorem Stepped.table_eq {e : Step} (h : Stepped s e s') (hNot : ∀ c, e ≠ .commit c) :
    s'.table = s.table := by
  cases h with
  | start _ => rfl
  | move _ _ _ => rfl
  | commit _ _ => exact absurd rfl (hNot _)

end Inversion

end Dipper.Admin.Transactions
