import Dipper.Duration
import Dipper.Liveness.Breaker
import Mathlib.Data.List.Dedup

/-! The DIPs info watcher: in each cycle it asks the indexers that hold an accepted agreement, and
those it blocks, for their DIPs info, adds to the time that each without a readable answer has gone
without one, alerts past one limit and blocks past another.  Instants and durations are in
nanoseconds; the registry keeps the missing time in whole seconds. -/

namespace Dipper

namespace DipsInfo

/-- What the watcher is started with, checked; `trips` is the test whether so many of the holders
checked give no readable answer that counting is paused. -/
structure WatcherConfig where
  interval : Nat
  alertAfterHours : Nat
  denylistAfterHours : Nat
  trips : (checked missing : Nat) → Bool
  interval_pos : 0 < interval
  interval_le : interval ≤ Duration.fromSecs (24 * 3600)
  alert_pos : 0 < alertAfterHours
  alert_lt : alertAfterHours < denylistAfterHours

def WatcherConfig.alertAfter (config : WatcherConfig) : Nat :=
  Duration.fromSecs (config.alertAfterHours * 3600)

def WatcherConfig.denylistAfter (config : WatcherConfig) : Nat :=
  Duration.fromSecs (config.denylistAfterHours * 3600)

inductive Log : Type
  | countingAgain (missing checked : Nat)
  | checksPaused (missing checked pausedHours : Nat)
  | dipsInfoMissing (indexerIds : List IndexerId) (alertAfterHours : Nat)
  | answersAgain (indexerId : IndexerId) (missingHours : Nat)
  | denylisted (indexerIds : List IndexerId) (denylistAfterHours : Nat)
  deriving DecidableEq, Repr

section Registry

/-- A row of `dipper_indexer_dips_info_missing`. -/
structure MissingRow where
  missingSecs : Nat
  blockedUntil : Option Nat
  deriving DecidableEq, Repr

abbrev MissingTable : Type := AList fun _ : IndexerId => MissingRow

/-- How long each indexer has gone without a readable answer, and how long those had that now gave
one or are no longer asked. -/
structure DipsInfoChecks where
  missing : List (IndexerId × Nat)
  cleared : List (IndexerId × Nat)
  deriving DecidableEq, Repr

def maxI64 : Nat := 9223372036854775807

namespace MissingTable

variable (table : MissingTable)

def stored (id : IndexerId) : Nat := ((table.lookup id).map (·.missingSecs)).getD 0

def blockedUntil (id : IndexerId) : Option Nat := (table.lookup id).bind (·.blockedUntil)

/-- The `DELETE` of the rows that are not `missing`. -/
def forget (missing : List IndexerId) : MissingTable :=
  (table.keys.filter (· ∉ missing)).foldl (fun t id => t.erase id) table

/-- The `INSERT … ON CONFLICT` of one row. -/
def addMissing (addedSecs : Nat) (table : MissingTable) (id : IndexerId) : MissingTable :=
  table.insert id <|
    match table.lookup id with
    | some row => { row with missingSecs := row.missingSecs + addedSecs }
    | none => ⟨addedSecs, none⟩

def totals (ids : List IndexerId) : List (IndexerId × Nat) :=
  ids.filterMap fun id => (table.lookup id).map fun row => (id, Duration.fromSecs row.missingSecs)

/-- One transaction.  It fails where a row would be inserted twice or a sum is out of range. -/
def recordDipsInfoChecks (missing : List IndexerId) (added : Nat) :
    Option (MissingTable × DipsInfoChecks) :=
  let addedSecs := min (Duration.asSecs added) maxI64
  let table' := missing.foldl (addMissing addedSecs) (table.forget missing)
  if missing.Nodup ∧ missing.all (fun id => stored table' id ≤ maxI64) then
    some (table', ⟨totals table' missing, table.totals (table.keys.filter (· ∉ missing))⟩)
  else none

/-- The indexers blocked at a time of the database's clock. -/
def getDipsInfoBlocks (now : Nat) : List IndexerId :=
  table.keys.filter fun id => (table.blockedUntil id).any (now < ·)

def setBlockedUntil (until' : Nat) (table : MissingTable) (id : IndexerId) : MissingTable :=
  match table.lookup id with
  | some row => table.insert id { row with blockedUntil := some until' }
  | none => table

/-- Blocks those of `ids` that have a row, and gives those that were not blocked before. -/
def blockMissingDipsInfo (ids : List IndexerId) (duration now : Nat) :
    MissingTable × List IndexerId :=
  let forSecs := min (Duration.asSecs duration) maxI64
  (ids.foldl (setBlockedUntil (now + Duration.fromSecs forSecs)) table,
    ids.filter fun id => (table.lookup id).any (·.blockedUntil.isNone))

end MissingTable

end Registry

/-- How long a block lasts unless renewed: three intervals, and at least one hour. -/
def blockDuration (interval : Nat) : Nat :=
  max (Duration.saturatingMul interval 3) (Duration.fromSecs 3600)

/-- While counting is paused only those already blocked are blocked. -/
def indexersToBlock (checks : DipsInfoChecks) (paused : Bool) (blocked : List IndexerId)
    (limit : Nat) : List IndexerId :=
  (checks.missing.filter fun m => limit ≤ m.2 ∧ (!paused ∨ m.1 ∈ blocked)).map (·.1)

/-- How often the pause alert repeats while counting stays paused. -/
def pauseAlertRepeat : Nat := Duration.fromSecs (6 * 3600)

/-- What the watcher remembers between cycles. -/
structure Cycles where
  lastRecorded : Option Nat := none
  pausedSince : Option Nat := none
  pauseAlertedAt : Option Nat := none
  quietCycles : Nat := 0
  deriving DecidableEq, Repr

namespace Cycles

/-- The time since the last recorded cycle, at most two intervals. -/
def elapsed (cycles : Cycles) (now interval : Nat) : Nat :=
  min ((cycles.lastRecorded.map (now - ·)).getD 0) (Duration.saturatingMul interval 2)

def recorded (cycles : Cycles) (now : Nat) : Cycles := { cycles with lastRecorded := some now }

def paused (cycles : Cycles) : Bool := cycles.pausedSince.isSome

/-- The cycle's trip test noted: clearing takes several calm cycles in a row. -/
def note (cycles : Cycles) (trips : Bool) (now : Nat) : Cycles :=
  if trips then { cycles with quietCycles := 0, pausedSince := some (cycles.pausedSince.getD now) }
  else if cycles.paused then
    if Liveness.unreachableClearCycles ≤ cycles.quietCycles + 1 then
      { cycles with pausedSince := none, quietCycles := 0 }
    else { cycles with quietCycles := cycles.quietCycles + 1 }
  else cycles

/-- The missing time a cycle adds: none while counting is paused. -/
def judge (cycles : Cycles) (config : WatcherConfig) (checked missing elapsed now : Nat) :
    Cycles × Nat × List Log :=
  let noted := cycles.note (config.trips checked missing) now
  match noted.pausedSince with
  | none => (noted, elapsed, if cycles.paused then [.countingAgain missing checked] else [])
  | some since =>
    if noted.pauseAlertedAt.all fun at' => at' < since ∨ pauseAlertRepeat ≤ now - at' then
      ({ noted with pauseAlertedAt := some now }, 0,
        [.checksPaused missing checked (Duration.asSecs (now - since) / 3600)])
    else (noted, 0, [])

end Cycles

/-- Whether adding `added` took a total of `total` to `limit` or past it. -/
def crossed (total added limit : Nat) : Bool := 0 < added ∧ limit ≤ total ∧ total - added < limit

/-- One alert that names every indexer whose missing time passed the limit, and a note for each one
that had been alerted on. -/
def report (checks : DipsInfoChecks) (added alertAfter : Nat) : List Log :=
  let reached := (checks.missing.filter fun m => crossed m.2 added alertAfter).map (·.1)
  (if reached = [] then []
    else [.dipsInfoMissing reached (Duration.asSecs alertAfter / 3600)]) ++
  (checks.cleared.filter fun m => alertAfter ≤ m.2).map fun m =>
    .answersAgain m.1 (Duration.asSecs m.2 / 3600)

structure Watcher where
  table : MissingTable := ∅
  cycles : Cycles := {}

/-- How a cycle goes: when it starts, the holders it reads, the database's time when it reads the
blocks, who answers readably, whether the checks are recorded, and the database's time when it
blocks.  A registry call that fails gives nothing. -/
structure Circumstances where
  now : Nat
  holders : Option (List IndexerId)
  blocksReadAt : Option Nat
  answers : IndexerId → Bool
  recordFails : Bool
  blockAt : Option Nat

/-- A recorded cycle: the table it found, when it started, who was missing, the time it added and
what it logged. -/
structure Recorded where
  found : MissingTable
  now : Nat
  missing : List IndexerId
  added : Nat
  logs : List Log

structure CycleResult where
  watcher : Watcher
  recorded : Option Recorded := none
  logs : List Log := []

def afterRecord (config : WatcherConfig) (table : MissingTable) (cycles : Cycles)
    (blocked : List IndexerId) (checks : DipsInfoChecks) (blockAt : Option Nat) :
    MissingTable × List Log :=
  let toBlock := indexersToBlock checks cycles.paused blocked config.denylistAfter
  match blockAt with
  | none => (table, [])
  | some now =>
    if toBlock = [] then (table, [])
    else
      let (table', newly) := table.blockMissingDipsInfo toBlock (blockDuration config.interval) now
      (table', if newly = [] then [] else [.denylisted newly config.denylistAfterHours])

def judgeAnswers (config : WatcherConfig) (w : Watcher) (c : Circumstances) (elapsed : Nat)
    (holders blocked : List IndexerId) : CycleResult :=
  let checked := (holders ++ blocked).dedup
  let missing := checked.filter fun id => !c.answers id
  let missingHolders := missing.countP (· ∈ holders)
  let (cycles, added, judged) := w.cycles.judge config holders.length missingHolders elapsed c.now
  match if c.recordFails then none else w.table.recordDipsInfoChecks missing added with
  | none => { watcher := { w with cycles := cycles }, logs := judged }
  | some (table, checks) =>
    let reported := report checks added config.alertAfter
    let (table', blocks) :=
      afterRecord config table (cycles.recorded c.now) blocked checks c.blockAt
    { watcher := ⟨table', cycles.recorded c.now⟩
      recorded := some ⟨w.table, c.now, missing, added, judged ++ reported ++ blocks⟩
      logs := judged ++ reported ++ blocks }

/-- One cycle.  A failed registry call ends it early. -/
def runCycle (config : WatcherConfig) (w : Watcher) (c : Circumstances) : CycleResult :=
  let elapsed := w.cycles.elapsed c.now config.interval
  match c.holders with
  | none => { watcher := w }
  | some holders =>
    match c.blocksReadAt with
    | none => { watcher := w }
    | some readAt =>
      judgeAnswers config w c elapsed holders.dedup (w.table.getDipsInfoBlocks readAt)

/-- What happens to the watcher: a cycle, or a restart, which forgets what the process remembers.  A
stop that ends a cycle midway is a cycle whose remaining calls fail, and a restart. -/
inductive Event : Type
  | cycle (c : Circumstances)
  | restart

def Watcher.step (config : WatcherConfig) (w : Watcher) : Event → CycleResult
  | .cycle c => runCycle config w c
  | .restart => { watcher := { w with cycles := {} } }

/-- The watcher after some events from an empty table, and the cycles that were recorded. -/
def after (config : WatcherConfig) (events : List Event) : Watcher × List Recorded :=
  events.foldl (fun s e =>
    let result := s.1.step config e
    (result.watcher, s.2 ++ result.recorded.toList)) ({}, [])

def cycleTimes (events : List Event) : List Nat :=
  events.filterMap fun
    | .cycle c => some c.now
    | .restart => none

section Tables

theorem lookup_foldl {κ α : Type} [DecidableEq κ] {keys : List κ}
    {f : AList (fun _ : κ => α) → κ → AList (fun _ : κ => α)} {g : Option α → Option α}
    (hUpdate : ∀ t k k', (f t k).lookup k' = if k' = k then g (t.lookup k') else t.lookup k')
    (hNodup : keys.Nodup) (t : AList fun _ : κ => α) (k : κ) :
    (keys.foldl f t).lookup k = if k ∈ keys then g (t.lookup k) else t.lookup k := by
  induction keys generalizing t with
  | nil => simp
  | cons k' keys ih =>
    obtain ⟨hNew, hRest⟩ := List.nodup_cons.mp hNodup
    rw [List.foldl_cons, ih hRest, hUpdate]
    by_cases hEq : k = k'
    · rw [hEq, if_neg hNew, if_pos rfl, if_pos List.mem_cons_self]
    · simp [hEq]

namespace MissingTable

variable {table table' : MissingTable} {missing ids : List IndexerId} {id : IndexerId}
  {added : Nat} {checks : DipsInfoChecks}

theorem lookup_forget :
    (table.forget missing).lookup id = if id ∈ missing then table.lookup id else none := by
  have hErase : ∀ (t : MissingTable) (k k' : IndexerId),
      (t.erase k).lookup k' = if k' = k then none else t.lookup k' := by
    intro t k k'
    split
    · rename_i hEq
      rw [hEq, AList.lookup_erase]
    · rename_i hNe
      exact AList.lookup_erase_ne hNe
  unfold forget
  rw [lookup_foldl (g := fun _ => none) hErase (table.keys_nodup.filter _)]
  by_cases hMissing : id ∈ missing
  · simp [hMissing]
  · rw [if_neg hMissing]
    split
    · rfl
    · rename_i hAbsent
      refine AList.lookup_eq_none.mpr fun hKey => hAbsent ?_
      exact List.mem_filter.mpr ⟨hKey, by simpa using hMissing⟩

theorem lookup_addMissing {secs : Nat} {k : IndexerId} :
    (addMissing secs table k).lookup id =
      if id = k then some ⟨table.stored id + secs, table.blockedUntil id⟩ else table.lookup id := by
  unfold addMissing stored blockedUntil
  rw [lookup_insert_eq_ite]
  split
  · rename_i hEq
    rw [hEq]
    cases table.lookup k with
    | some row => rfl
    | none => simp
  · rfl

/-- A recorded cycle: those missing have a row with the time added, and the others none. -/
theorem record_spec (h : table.recordDipsInfoChecks missing added = some (table', checks)) :
    missing.Nodup ∧
    (∀ id, table'.lookup id = if id ∈ missing then
      some ⟨table.stored id + min (Duration.asSecs added) maxI64, table.blockedUntil id⟩
      else none) ∧
    checks.missing = missing.map fun id =>
      (id, Duration.fromSecs (table.stored id + min (Duration.asSecs added) maxI64)) := by
  unfold recordDipsInfoChecks at h
  dsimp only at h
  split at h
  · rename_i hOk
    obtain ⟨rfl, rfl⟩ := Prod.mk.inj (Option.some.inj h)
    have hLookup : ∀ id, (missing.foldl (addMissing (min (Duration.asSecs added) maxI64))
        (table.forget missing)).lookup id = if id ∈ missing then
          some ⟨table.stored id + min (Duration.asSecs added) maxI64, table.blockedUntil id⟩
          else none := by
      intro id
      rw [lookup_foldl (g := fun row => some ⟨(row.map (·.missingSecs)).getD 0 +
        min (Duration.asSecs added) maxI64, row.bind (·.blockedUntil)⟩)
        (fun t k k' => lookup_addMissing) hOk.1, lookup_forget]
      by_cases hMissing : id ∈ missing
      · simp [hMissing, stored, blockedUntil]
      · simp [hMissing]
    refine ⟨hOk.1, hLookup, ?_⟩
    rw [← List.filterMap_eq_map]
    refine List.filterMap_congr fun id hid => ?_
    rw [hLookup, if_pos hid]
    rfl
  · cases h

theorem mem_getDipsInfoBlocks {now : Nat} :
    id ∈ table.getDipsInfoBlocks now ↔ ∃ until', table.blockedUntil id = some until' ∧
      now < until' := by
  unfold getDipsInfoBlocks
  rw [List.mem_filter, Option.any_eq_true]
  constructor
  · rintro ⟨-, until', hUntil, hLater⟩
    exact ⟨until', hUntil, of_decide_eq_true hLater⟩
  · rintro ⟨until', hUntil, hLater⟩
    refine ⟨?_, until', hUntil, decide_eq_true hLater⟩
    obtain ⟨row, hRow, -⟩ := Option.bind_eq_some_iff.mp hUntil
    exact AList.lookup_isSome.mp (Option.isSome_of_eq_some hRow)

theorem lookup_block {duration now : Nat} (hNodup : ids.Nodup) :
    ((table.blockMissingDipsInfo ids duration now).1).lookup id =
      if id ∈ ids then (table.lookup id).map fun row => { row with
        blockedUntil := some (now + Duration.fromSecs (min (Duration.asSecs duration) maxI64)) }
      else table.lookup id := by
  refine lookup_foldl (fun t k k' => ?_) hNodup table id
  by_cases hEq : k' = k
  · rw [if_pos hEq, hEq]
    unfold setBlockedUntil
    cases hRow : t.lookup k with
    | some row => exact AList.lookup_insert _
    | none => exact hRow
  · rw [if_neg hEq]
    unfold setBlockedUntil
    cases t.lookup k with
    | some row => exact AList.lookup_insert_ne hEq
    | none => rfl

end MissingTable

end Tables

section Steps

variable {config : WatcherConfig} {w : Watcher} {c : Circumstances} {cycles : Cycles}
  {checked missing elapsed now : Nat} {id : IndexerId}

/-- Whether a log is the alert that names an indexer. -/
def Log.names (id : IndexerId) : Log → Bool
  | .dipsInfoMissing indexerIds _ => id ∈ indexerIds
  | _ => false

theorem Cycles.judge_spec {cycles' : Cycles} {added : Nat} {logs : List Log}
    (h : cycles.judge config checked missing elapsed now = (cycles', added, logs)) :
    cycles'.lastRecorded = cycles.lastRecorded ∧
    (added = if cycles'.paused then 0 else elapsed) ∧
    ∀ id, logs.any (·.names id) = false := by
  have hNote : ∀ trips, (cycles.note trips now).lastRecorded = cycles.lastRecorded := by
    intro trips
    unfold note
    split
    · rfl
    · split
      · split <;> rfl
      · rfl
  unfold judge at h
  generalize hNoted : cycles.note (config.trips checked missing) now = noted at h
  have hLast : noted.lastRecorded = cycles.lastRecorded := hNoted ▸ hNote _
  obtain ⟨last, pausedSince, alertedAt, quiet⟩ := noted
  cases pausedSince with
  | none =>
    cases h
    refine ⟨hLast, rfl, fun id => ?_⟩
    split <;> rfl
  | some since =>
    dsimp only at h
    split at h
    · cases h
      exact ⟨hLast, rfl, fun _ => rfl⟩
    · cases h
      exact ⟨hLast, rfl, fun _ => rfl⟩

theorem any_names_report {checks : DipsInfoChecks} {added alertAfter : Nat} :
    (report checks added alertAfter).any (·.names id) = true ↔
      ∃ total, (id, total) ∈ checks.missing ∧ crossed total added alertAfter = true := by
  have hCleared : ((checks.cleared.filter fun m => alertAfter ≤ m.2).map fun m =>
      Log.answersAgain m.1 (Duration.asSecs m.2 / 3600)).any (·.names id) = false := by
    rw [List.any_map]
    exact List.any_eq_false.mpr fun m _ => by simp [Log.names]
  have hReached : id ∈ (checks.missing.filter fun m => crossed m.2 added alertAfter).map (·.1) ↔
      ∃ total, (id, total) ∈ checks.missing ∧ crossed total added alertAfter = true := by
    simp [List.mem_filter]
  unfold report
  rw [List.any_append, hCleared, Bool.or_false, ← hReached]
  split
  · rename_i hNone
    simp [hNone]
  · simp [Log.names]

theorem elapsed_le : cycles.elapsed now config.interval ≤ 2 * config.interval := by
  unfold Cycles.elapsed Duration.saturatingMul
  omega

theorem asSecs_le {added : Nat} (h : added ≤ 2 * config.interval) :
    Duration.asSecs added ≤ maxI64 := by
  have hDay := config.interval_le
  unfold Duration.asSecs Duration.fromSecs maxI64 at *
  omega

theorem afterRecord_spec {table table' : MissingTable} {blocked : List IndexerId}
    {checks : DipsInfoChecks} {blockAt : Option Nat} {logs : List Log}
    (hNodup : (checks.missing.map (·.1)).Nodup)
    (h : afterRecord config table cycles blocked checks blockAt = (table', logs)) :
    (∀ id, table'.stored id = table.stored id) ∧
    (∀ id, table'.blockedUntil id ≠ table.blockedUntil id → ∃ total, (id, total) ∈ checks.missing ∧
        config.denylistAfter ≤ total ∧ (cycles.paused = true → id ∈ blocked)) ∧
    ∀ id, logs.any (·.names id) = false := by
  unfold afterRecord at h
  dsimp only at h
  cases blockAt with
  | none =>
    cases h
    exact ⟨fun _ => rfl, fun _ hChanged => absurd rfl hChanged, fun _ => rfl⟩
  | some now =>
    dsimp only at h
    split at h
    · cases h
      exact ⟨fun _ => rfl, fun _ hChanged => absurd rfl hChanged, fun _ => rfl⟩
    · cases h
      have hIds : (indexersToBlock checks cycles.paused blocked config.denylistAfter).Nodup :=
        hNodup.sublist (List.filter_sublist.map _)
      refine ⟨fun id => ?_, fun id hChanged => ?_, fun id => ?_⟩
      · unfold MissingTable.stored
        rw [MissingTable.lookup_block hIds]
        split
        · rw [Option.map_map]
          rfl
        · rfl
      · have hMem : id ∈ indexersToBlock checks cycles.paused blocked config.denylistAfter := by
          by_contra hOther
          refine hChanged ?_
          unfold MissingTable.blockedUntil
          rw [MissingTable.lookup_block hIds, if_neg hOther]
        obtain ⟨m, hm, rfl⟩ := List.mem_map.mp hMem
        obtain ⟨hTotal, hTest⟩ := List.mem_filter.mp hm
        obtain ⟨hLimit, hPaused⟩ := of_decide_eq_true hTest
        refine ⟨m.2, hTotal, hLimit, fun h => hPaused.resolve_left ?_⟩
        simp [h]
      · split <;> rfl

/-- The cycle asks the indexer: it holds an agreement, or is blocked when the cycle reads that. -/
def Circumstances.Asks (c : Circumstances) (table : MissingTable) (id : IndexerId) : Prop :=
  (∃ holders ∈ c.holders, id ∈ holders) ∨
    ∃ readAt ∈ c.blocksReadAt, id ∈ table.getDipsInfoBlocks readAt

structure Records (config : WatcherConfig) (w : Watcher) (c : Circumstances) (r : Recorded)
    (w' : Watcher) : Prop where
  found : r.found = w.table
  now : r.now = c.now
  missing : ∀ id, id ∈ r.missing ↔ c.Asks w.table id ∧ c.answers id = false
  last : w'.cycles.lastRecorded = some c.now
  added : r.added = if w'.cycles.paused then 0 else w.cycles.elapsed c.now config.interval
  stored : ∀ id, w'.table.stored id =
    if id ∈ r.missing then w.table.stored id + Duration.asSecs r.added else 0
  blocked : ∀ id until', w'.table.blockedUntil id = some until' →
    w.table.blockedUntil id ≠ some until' →
    config.denylistAfter ≤ Duration.fromSecs (w'.table.stored id) ∧
      (w'.cycles.paused = true →
        c.blocksReadAt.any (fun readAt => id ∈ w.table.getDipsInfoBlocks readAt) = true)
  named : ∀ id, r.logs.any (·.names id) = true ↔ id ∈ r.missing ∧
    crossed (Duration.fromSecs (w'.table.stored id)) r.added config.alertAfter = true

theorem records_of_recorded {readAt added : Nat} {missing : List IndexerId} {cycles : Cycles}
    {table table' : MissingTable} {checks : DipsInfoChecks} {judged blocks : List Log}
    (hReadAt : c.blocksReadAt = some readAt)
    (hMissing : ∀ id, id ∈ missing ↔ c.Asks w.table id ∧ c.answers id = false)
    (hAdded : added = if cycles.paused then 0 else w.cycles.elapsed c.now config.interval)
    (hJudged : ∀ id, judged.any (·.names id) = false)
    (hRecord : w.table.recordDipsInfoChecks missing added = some (table, checks))
    (hBlock : afterRecord config table (cycles.recorded c.now)
      (w.table.getDipsInfoBlocks readAt) checks c.blockAt = (table', blocks)) :
    Records config w c
      ⟨w.table, c.now, missing, added, judged ++ report checks added config.alertAfter ++ blocks⟩
      ⟨table', cycles.recorded c.now⟩ := by
  have hLe : added ≤ 2 * config.interval := by
    rw [hAdded]
    split
    · exact Nat.zero_le _
    · exact elapsed_le
  obtain ⟨hNodup, hLookup, hTotals⟩ := MissingTable.record_spec hRecord
  rw [Nat.min_eq_left (asSecs_le hLe)] at hLookup hTotals
  have hStored : ∀ id, table.stored id =
      if id ∈ missing then w.table.stored id + Duration.asSecs added else 0 := by
    intro id
    unfold MissingTable.stored
    rw [hLookup id]
    split <;> rfl
  have hTotal : ∀ id total, (id, total) ∈ checks.missing ↔
      id ∈ missing ∧ total = Duration.fromSecs (table.stored id) := by
    intro id total
    rw [hTotals, List.mem_map]
    constructor
    · rintro ⟨id', hMem, hEq⟩
      obtain ⟨rfl, rfl⟩ := Prod.mk.inj hEq
      rw [hStored, if_pos hMem]
      exact ⟨hMem, rfl⟩
    · rintro ⟨hMem, rfl⟩
      rw [hStored, if_pos hMem]
      exact ⟨id, hMem, rfl⟩
  have hIds : (checks.missing.map (·.1)).Nodup := by
    rw [hTotals, List.map_map]
    exact (List.map_id missing).symm ▸ hNodup
  obtain ⟨hSame, hBlocked, hBlocks⟩ := afterRecord_spec hIds hBlock
  refine ⟨rfl, rfl, hMissing, rfl, hAdded, fun id => (hSame id).trans (hStored id), ?_, ?_⟩
  · intro id until' hUntil hNew
    -- The rows that are kept keep their blocks, so the block is this cycle's own.
    have hChanged : table'.blockedUntil id ≠ table.blockedUntil id := by
      intro hEq
      refine hNew ?_
      have hKept := hEq.symm.trans hUntil
      unfold MissingTable.blockedUntil at hKept ⊢
      rw [hLookup id] at hKept
      split at hKept
      · exact hKept
      · cases hKept
    obtain ⟨total, hMem, hLimit, hPaused⟩ := hBlocked id hChanged
    obtain ⟨-, rfl⟩ := (hTotal id total).mp hMem
    change _ ≤ Duration.fromSecs (table'.stored id) ∧ _
    rw [hSame]
    refine ⟨hLimit, fun h => ?_⟩
    rw [hReadAt]
    exact decide_eq_true (hPaused h)
  · intro id
    change _ ↔ id ∈ missing ∧ crossed (Duration.fromSecs (table'.stored id)) added _ = true
    rw [List.any_append, List.any_append, hJudged, hBlocks, Bool.false_or, Bool.or_false,
      any_names_report, hSame]
    constructor
    · rintro ⟨total, hMem, hCrossed⟩
      obtain ⟨hMissing, rfl⟩ := (hTotal id total).mp hMem
      exact ⟨hMissing, hCrossed⟩
    · rintro ⟨hMissing, hCrossed⟩
      exact ⟨_, (hTotal id _).mpr ⟨hMissing, rfl⟩, hCrossed⟩

theorem judgeAnswers_cases {holders : List IndexerId} {readAt : Nat} {result : CycleResult}
    (hHolders : c.holders = some holders) (hReadAt : c.blocksReadAt = some readAt)
    (h : judgeAnswers config w c (w.cycles.elapsed c.now config.interval) holders.dedup
      (w.table.getDipsInfoBlocks readAt) = result) :
    (result.recorded = none ∧ result.watcher.table = w.table ∧
      result.watcher.cycles.lastRecorded = w.cycles.lastRecorded) ∨
    ∃ r, result.recorded = some r ∧ Records config w c r result.watcher := by
  unfold judgeAnswers at h
  dsimp only at h
  generalize hAsked : ((holders.dedup ++ _).dedup.filter fun id => !c.answers id) = missing at h
  have hMissing : ∀ id, id ∈ missing ↔ c.Asks w.table id ∧ c.answers id = false := by
    intro id
    rw [← hAsked, List.mem_filter, List.mem_dedup, List.mem_append, List.mem_dedup,
      Circumstances.Asks, hHolders, hReadAt]
    simp
  generalize hJudge : w.cycles.judge config _ _ _ _ = judged at h
  obtain ⟨cycles, added, logs⟩ := judged
  obtain ⟨hLast, hAdded, hJudged⟩ := Cycles.judge_spec hJudge
  dsimp only at h
  cases hRecord : (if c.recordFails then none
      else w.table.recordDipsInfoChecks missing added) with
  | none =>
    rw [hRecord] at h
    cases h
    exact .inl ⟨rfl, rfl, hLast⟩
  | some recorded =>
    obtain ⟨table, checks⟩ := recorded
    rw [hRecord] at h
    dsimp only at h
    have hSome : w.table.recordDipsInfoChecks missing added = some (table, checks) := by
      split at hRecord
      · cases hRecord
      · exact hRecord
    generalize hBlock : afterRecord config table (cycles.recorded c.now) _ checks c.blockAt =
      blocking at h
    obtain ⟨table', blocks⟩ := blocking
    cases h
    exact .inr ⟨_, rfl, records_of_recorded hReadAt hMissing hAdded hJudged hSome hBlock⟩

theorem runCycle_cases (config : WatcherConfig) (w : Watcher) (c : Circumstances) :
    ((runCycle config w c).recorded = none ∧ (runCycle config w c).watcher.table = w.table ∧
      (runCycle config w c).watcher.cycles.lastRecorded = w.cycles.lastRecorded) ∨
    ∃ r, (runCycle config w c).recorded = some r ∧
      Records config w c r (runCycle config w c).watcher := by
  unfold runCycle
  cases hHolders : c.holders with
  | none => exact .inl ⟨rfl, rfl, rfl⟩
  | some holders =>
    cases hReadAt : c.blocksReadAt with
    | none => exact .inl ⟨rfl, rfl, rfl⟩
    | some readAt => exact judgeAnswers_cases hHolders hReadAt rfl

end Steps

end DipsInfo

end Dipper
