import Dipper.DrainRuns

/-! When drains make progress.  A drain that succeeds in everything moves a cursor that there are
changes past, as long as the rows it reads again behind the cursor do not fill a page; where they
do, its first page ends at or before the cursor and every drain reads that page again. -/

namespace Dipper

open Concurrent World

namespace Listener

/-- Every fetch, parse and apply succeeds, and no stop is requested. -/
def succeeds : (o : Op) → Res o → Bool
  | .getChanged .., .ok response =>
    response.indexingAgreements.all fun e => (parseSnapshot e).isSome
  | .getChanged .., .error _ => false
  | .select _, r | .update .., r | .applyReconciliationBatch _, r | .push _, r => r.isOk
  | .stopRequested, r => !r
  | _, _ => true

/-- An operation of a drain that succeeds. -/
def Performed (w : World) (o : Op) (r : Res o) (w' : World) : Prop :=
  (∃ c, w.exec o c = some (r, w')) ∧ succeeds o r = true

section Applied

variable {config : Config} {snapshot : AgreementStateSnapshot} {agreement : IndexingAgreement}

/-- The program has no error to return. -/
def Fine {ε β : Type} (p : Act (Except ε β)) : Prop :=
  p.Returns Performed World.Steady fun r => ∃ b, r = .ok b

theorem exists_ok {ε β : Type} {r : Except ε β} (h : r.isOk = true) : ∃ b, r = .ok b := by
  cases r with
  | ok b => exact ⟨b, rfl⟩
  | error e => cases h

theorem fine_update {id : IndexingAgreementId} {u : RowUpdate} : Fine (Registry.update id u) :=
  Prog.Returns.perform fun _ _ _ h => exists_ok h.2

theorem fine_push {job : Job} : Fine (push job) :=
  Prog.Returns.perform fun _ _ _ h => exists_ok h.2

theorem fine_select {q : AgreementQuery} : Fine (Registry.select q) :=
  Prog.Returns.perform fun _ _ _ h => exists_ok h.2

theorem fine_applyReconciliationBatch {items : List ReconciliationItem} :
    Fine (Registry.applyReconciliationBatch items) :=
  Prog.Returns.perform fun _ _ _ h => exists_ok h.2

theorem returns_stopRequested :
    stopRequested.Returns Performed World.Steady fun stopped => stopped = false :=
  Prog.Returns.perform fun _ _ _ h => (Bool.not_eq_true' _).mp h.2

theorem fine_checkEndedButAccepted {queued : List (IndexingAgreementId × Nat)} :
    Fine (checkEndedButAccepted snapshot agreement queued) := by
  unfold checkEndedButAccepted
  split
  · unfold queueLiveCheck
    dsimp only
    split
    · exact .pure ⟨_, rfl⟩
    · refine .bind World.Steady.refl fine_push ?_
      rintro r ⟨u, rfl⟩
      exact .pure ⟨_, rfl⟩
  · exact .pure ⟨_, rfl⟩

theorem fine_recordAcceptOfCancelling : Fine (recordAcceptOfCancelling snapshot agreement) := by
  unfold recordAcceptOfCancelling
  split
  · exact .pure ⟨_, rfl⟩
  · refine .bind World.Steady.refl fine_update ?_
    rintro r ⟨updated, rfl⟩
    exact .pure ⟨_, rfl⟩

theorem fine_decideReconciliation : Fine (decideReconciliation snapshot agreement) := by
  unfold decideReconciliation
  split
  · exact .pure ⟨_, rfl⟩
  · split
    · have hRecord : Fine (recordAcceptAndCancelFromChain snapshot agreement) := by
        unfold recordAcceptAndCancelFromChain
        split
        · exact .pure ⟨_, rfl⟩
        · refine .bind World.Steady.refl fine_update ?_
          rintro r ⟨updated, rfl⟩
          exact .pure ⟨_, rfl⟩
      refine .bind World.Steady.refl hRecord ?_
      rintro r ⟨u, rfl⟩
      exact .pure ⟨_, rfl⟩
    · exact .pure ⟨_, rfl⟩

theorem returns_prepareReconciliation {agreement : Option IndexingAgreement}
    {queued : List (IndexingAgreementId × Nat)} :
    (prepareReconciliation snapshot agreement queued).Returns Performed World.Steady
      fun r => ∃ prep, r.1 = .ok prep := by
  cases agreement with
  | none => exact .pure ⟨none, rfl⟩
  | some agreement =>
    refine .bind World.Steady.refl fine_checkEndedButAccepted ?_
    rintro r ⟨queued', rfl⟩
    refine .bind World.Steady.refl fine_recordAcceptOfCancelling ?_
    rintro r ⟨u, rfl⟩
    refine .bind World.Steady.refl fine_decideReconciliation ?_
    rintro r ⟨prep, rfl⟩
    exact .pure ⟨prep, rfl⟩

theorem returns_prepareEach {snapshots : List AgreementStateSnapshot}
    {agreements : List IndexingAgreement} {work : PageWork} :
    (prepareEach snapshots agreements work).Returns Performed World.Steady
      fun r => r.1 = false ∧ r.2.unapplied = work.unapplied := by
  induction snapshots generalizing agreements work with
  | nil => exact .pure ⟨rfl, rfl⟩
  | cons first rest ih =>
    refine .bind World.Steady.refl returns_stopRequested ?_
    rintro stopped rfl
    refine .bind World.Steady.refl returns_prepareReconciliation ?_
    rintro ⟨prepared, liveChecks⟩ ⟨prep, rfl⟩
    intro w tr r w' run
    obtain ⟨hStopped, hUnapplied⟩ := ih _ _ _ _ run
    refine ⟨hStopped, hUnapplied.trans ?_⟩
    cases prep <;> rfl

theorem returns_preparePage {snapshots : List AgreementStateSnapshot}
    {liveChecks : List (IndexingAgreementId × Nat)} :
    (preparePage snapshots liveChecks).Returns Performed World.Steady
      fun r => r.1 = false ∧ r.2.unapplied = [] := by
  have hList : Fine (Registry.listAgreements (.byIds (snapshots.map (·.agreementId)))) := by
    refine .bind World.Steady.refl fine_select ?_
    rintro r ⟨rows, rfl⟩
    exact .pure ⟨_, rfl⟩
  refine .bind World.Steady.refl hList ?_
  rintro r ⟨agreements, rfl⟩
  exact returns_prepareEach

theorem returns_applyPage {work : PageWork} :
    (applyPage work).Returns Performed World.Steady fun r => r.1.unapplied = work.unapplied := by
  unfold applyPage
  dsimp only
  split
  · exact .pure rfl
  · refine .bind World.Steady.refl fine_applyReconciliationBatch ?_
    rintro r ⟨outcomes, rfl⟩
    exact .pure rfl

theorem returns_reconcilePage {since : Cursor} {snapshots : List AgreementStateSnapshot}
    {liveChecks : List (IndexingAgreementId × Nat)} :
    (reconcilePage config since snapshots liveChecks).Returns Performed World.Steady
      fun report => report.stopped = false ∧ report.unapplied = [] := by
  refine .bind World.Steady.refl returns_preparePage ?_
  rintro ⟨stopped, work⟩ ⟨rfl, hWork⟩
  refine .bind World.Steady.refl returns_applyPage ?_
  rintro ⟨work', outcomes⟩ hWork'
  refine .bind World.Steady.refl .any fun _ _ => ?_
  refine .bind World.Steady.refl .any fun _ _ => ?_
  exact .pure ⟨rfl, hWork'.trans hWork⟩

end Applied

section Progress

variable {config : Config} {memory memory' : ListenerMemory} {outcome : DrainOutcome}
  {w w' : World} {tr : List (Action World Op)} {s : AgreementStateSnapshot}

/-- A drain that succeeds moves a cursor that a change is past, if and only if the rows it reads
again, between where it starts and the cursor, are less than a page, and the cursor is not in the
last block there can be, unless its first page is full. -/
theorem drain_moves_cursor
    (hRun : (drainOnce config memory).Runs Performed World.Steady w tr
      (some (memory', .ok outcome)) w')
    (hs : s ∈ w.indexed.graph.rows) (hPast : memory.cursor < s.cursor) :
    memory.cursor < memory'.cursor ↔
      (w.indexed.graph.window (effectiveCursor config.reorgBufferBlocks memory.cursor)
        memory.cursor).length < subgraphPageSize ∧
      (memory.cursor.block < maxU64 ∨ subgraphPageSize ≤ (w.indexed.graph.page
        (effectiveCursor config.reorgBufferBlocks memory.cursor)).length) := by
  have hSem : ∀ w o r w', Performed w o r w' → ∃ c, w.exec o c = some (r, w') :=
    fun _ _ _ _ h => h.1
  have hOk : ∀ w since pinned r w', Performed w (.getChanged since pinned) (.ok r) w' →
      ∀ e ∈ r.indexingAgreements, (parseSnapshot e).isSome = true := by
    rintro w since pinned r w' ⟨-, hParse⟩
    exact List.all_eq_true.mp hParse
  have hSinceLe : effectiveCursor config.reorgBufferBlocks memory.cursor ≤ memory.cursor :=
    effectiveCursor_le
  generalize hSince : effectiveCursor config.reorgBufferBlocks memory.cursor = since at hSinceLe ⊢
  unfold drainOnce at hRun
  rw [hSince] at hRun
  change (drainPages config (999 + 1) _ _ _ _).Runs _ _ _ _ _ _ at hRun
  obtain ⟨r, tr1, tr2, w1, run1, run2, rfl⟩ := Prog.runs_bind World.Steady.refl hRun
  cases r with
  | error e =>
    obtain ⟨hEq, -⟩ := Prog.runs_pure run2
    cases hEq
  | ok page =>
    obtain ⟨⟨r, hParse, hAnswers, hRead⟩, -⟩ :=
      runs_getChangedAgreements (g := w.indexed.graph) (fun _ r => ∀ e ∈ r.indexingAgreements,
        (parseSnapshot e).isSome = true) hSem hOk rfl run1
    rw [← hAnswers.lt_cursor_iff hRead hSinceLe hParse hs hPast]
    obtain ⟨report, tr3, tr4, w2, run3, run4, rfl⟩ := Prog.runs_bind World.Steady.refl run2
    obtain ⟨hStopped, hUnapplied⟩ := returns_reconcilePage _ _ _ _ run3
    rw [hStopped, hUnapplied] at run4
    obtain ⟨⟨memory2, advanced⟩, tr5, tr6, w3, run5, run6, rfl⟩ :=
      Prog.runs_bind World.Steady.refl run4
    obtain ⟨now, skips, hCommits⟩ := runs_commitPage hSem since page.snapshots run5
    have hAdvanced : advanced = decide (memory.cursor < page.cursor) := hCommits.advances.symm
    have hCursor : memory2.cursor = if advanced then page.cursor else memory.cursor :=
      hCommits.cursor
    subst hAdvanced
    by_cases hNext : memory.cursor < page.cursor
    · rw [decide_eq_true hNext] at run6 hCursor
      refine iff_of_true (lt_of_lt_of_le hNext ?_) hNext
      rw [← show memory2.cursor = page.cursor from hCursor]
      dsimp only at run6
      split at run6
      · obtain ⟨hEq, -⟩ := Prog.runs_pure run6
        rw [(Prod.mk.inj hEq).1]
      · exact (forward_of_drainPages hSem 999 run6).1
    · -- The drain ends with its first page.
      rw [decide_eq_false hNext] at run6 hCursor
      obtain ⟨hEq, -⟩ := Prog.runs_pure run6
      rw [(Prod.mk.inj hEq).1, show memory2.cursor = memory.cursor from hCursor]
      exact iff_of_false (lt_irrefl _) hNext

def execSucceeding (w : World) (o : Op) (c : Choice) : Option (Res o × World) :=
  (w.exec o c).filter fun x => succeeds o x.1

theorem performed_of_execSucceeding {o : Op} {c : Choice} {r : Res o}
    (h : execSucceeding w o c = some (r, w')) : Performed w o r w' := by
  obtain ⟨hExec, hSucceeds⟩ := Option.filter_eq_some_iff.mp h
  exact ⟨⟨c, hExec⟩, hSucceeds⟩

/-- Agreement 10's accept moves the cursor past it. -/
theorem accept_moves_cursor : ∃ w tr memory' outcome w',
    (drainOnce sampleConfig { cursor := .atBlock 2 }).Runs Performed World.Steady w tr
      (some (memory', .ok outcome)) w' ∧ Cursor.atBlock 2 < memory'.cursor := by
  let w : World := { offeredWorld with indexed := ⟨acceptedGraph, offeredWorld.chain⟩ }
  let choices : List Choice :=
    [.page ⟨[acceptedEntity], 3, none⟩, .rows [10], .answer false, .ok, .ok, .ok, .ok, .ok]
  have hRun := Prog.runs_play World.Steady.refl
    (fun w o c r w' (h : execSucceeding w o c = some (r, w')) => performed_of_execSucceeding h)
    (drainOnce sampleConfig { cursor := .atBlock 2 }) w choices
  have hOut : ((drainOnce sampleConfig { cursor := .atBlock 2 }).play execSucceeding w
      choices).2.1 = some ({ cursor := .atBlock 4, lastSubgraphHead := 3 },
        .ok ⟨1, 1, 0, 3, false⟩) := by
    decide +kernel
  rw [hOut] at hRun
  exact ⟨w, _, _, _, _, hRun, (drain_moves_cursor hRun (s := sampleSnapshot 10 .accepted 3 5 0)
    (by decide) (by decide)).mpr ⟨by decide, .inl (by decide)⟩⟩

section Stalled

theorem performed_of_exec {o : Op} {r : Res o} (c : Choice) (h : w.exec o c = some (r, w'))
    (hSucceeds : succeeds o r = true) : Performed w o r w' := ⟨⟨c, h⟩, hSucceeds⟩

theorem runs_prepareEach_unknown (snapshots : List AgreementStateSnapshot) (work : PageWork)
    (w : World) :
    ∃ tr, (prepareEach snapshots [] work).Runs Performed World.Steady w tr
      (some (false, work)) w := by
  induction snapshots with
  | nil => exact ⟨[], .ret (.refl w)⟩
  | cons first rest ih =>
    obtain ⟨tr, hRest⟩ := ih
    have hStop : Performed w .stopRequested false w := performed_of_exec (.answer false) rfl rfl
    exact ⟨_, .op (.refl w) hStop hRest⟩

theorem runs_commitPage_stays (config : Config) (memory : ListenerMemory) {newCursor : Cursor}
    (hStay : ¬ memory.cursor < newCursor) (w : World) :
    ∃ tr memory', (commitPage config memory [] newCursor none).Runs Performed World.Steady w tr
      (some (memory', false)) w ∧ memory'.cursor = memory.cursor := by
  have hNow : Performed w .now w.now w := performed_of_exec .ok rfl rfl
  have hSame : (memory.lastPersistedTimestamp != memory.lastPersistedTimestamp) = false :=
    bne_self_eq_false _
  refine ⟨[⟨w, .now, w⟩], { memory with cursorHold := none }, .op (.refl w) hNow ?_, rfl⟩
  change Prog.Runs _ _ (persistState
    (decide (memory.cursor < newCursor) || _ != memory.lastPersistedTimestamp) _ _ _ >>= _) _ _ _ _
  simp only [decide_eq_false hStay]
  rw [hSame]
  exact .ret (.refl w)

/-- With no agreements of dipper's, a drain whose first page leads no further than the cursor ends
with that page. -/
theorem exists_stalled_drain (config : Config) (memory : ListenerMemory)
    {r : ChangedAgreementsResponse} {result : ChangedAgreementsResult}
    (hNone : w.agreements = ∅)
    (hAnswers : w.indexed.graph.Answers
      (effectiveCursor config.reorgBufferBlocks memory.cursor) r)
    (hParse : ∀ e ∈ r.indexingAgreements, (parseSnapshot e).isSome = true)
    (hRead : readPage (effectiveCursor config.reorgBufferBlocks memory.cursor) r = .ok result)
    (hTime : r.blockTimestamp = none) (hStay : ¬ memory.cursor < result.cursor) :
    ∃ tr memory' outcome w', (drainOnce config memory).Runs Performed World.Steady w tr
      (some (memory', .ok outcome)) w' ∧ memory'.cursor = memory.cursor := by
  have hTrans : ∀ w1 w2 w3 : World, w1.Steady w2 → w2.Steady w3 → w1.Steady w3 :=
    fun _ _ _ h h' => h.trans h'
  generalize hSince : effectiveCursor config.reorgBufferBlocks memory.cursor = since
    at hAnswers hRead
  let w1 := w.answered none r
  let w2 : World := { w1 with pageListed := [] }
  let w3 : World := { w2 with journal := w2.journal ++ [.pageDone since result.snapshots []] }
  have hQuery : Performed w (.getChanged since none) (.ok r) w1 := by
    refine performed_of_exec (.page r) (if_pos hAnswers) ?_
    exact List.all_eq_true.mpr hParse
  have hFetch : (getChangedAgreements config since none).Runs Performed World.Steady w
      [⟨w, .getChanged since none, w1⟩] (some (.ok result)) w1 := by
    refine .op (.refl w) hQuery ?_
    change (checkSkew config r.blockTimestamp >>= _).Runs _ _ _ _ _ _
    rw [hTime]
    exact hRead ▸ .ret (.refl w1)
  have hLists : AgreementQuery.Lists w1.now w1.requests w1.agreements
      (.byIds (result.snapshots.map (·.agreementId))) [] := by
    have hMatching : AgreementQuery.matching w1.now w1.requests w1.agreements
        (.byIds (result.snapshots.map (·.agreementId))) = [] := by
      rw [show w1.agreements = ∅ from hNone]
      rfl
    change Listing.IsListing _ _ _ _
    rw [hMatching]
    exact ⟨List.nodup_nil, nofun, rfl, .nil, nofun⟩
  have hSelect : Performed w1 (.select (.byIds (result.snapshots.map (·.agreementId)))) (.ok [])
      w2 := performed_of_exec (.rows []) (if_pos hLists) rfl
  have hNote : Performed w2 (.note (.pageDone since result.snapshots [])) () w3 :=
    performed_of_exec .ok rfl rfl
  obtain ⟨tr, hEach⟩ := runs_prepareEach_unknown result.snapshots
    { liveChecks := forgetBefore since.block memory.liveChecks } w2
  obtain ⟨trPage, hPage⟩ : ∃ tr, (reconcilePage config since result.snapshots
      (forgetBefore since.block memory.liveChecks)).Runs Performed World.Steady w1 tr
      (some { liveChecks := forgetBefore since.block memory.liveChecks }) w3 :=
    ⟨_, .bind hTrans (.op (.refl w1) hSelect hEach) (.op (.refl w2) hNote (.ret (.refl w3)))⟩
  let memory0 := { memory with liveChecks := forgetBefore since.block memory.liveChecks }
  let memory1 := { noteHead { memory0 with consecutiveFailures := 0 } result.latestBlock with
    liveChecks := forgetBefore since.block memory.liveChecks }
  obtain ⟨trCommit, memory', hCommit, hCursor⟩ :=
    runs_commitPage_stays config memory1 hStay w3
  have hResultTime : result.latestBlockTimestamp = none := by
    obtain ⟨-, -, -, -, hEq, -⟩ := readPage_cases hRead
    rw [hEq, hTime]
  rw [← hResultTime] at hCommit
  have hPages : (drainPages config (999 + 1) since none memory0 ⟨0, 0, 0, 0, false⟩).Runs Performed
      World.Steady w (_ ++ (trPage ++ (trCommit ++ [])))
      (some (memory', .ok ⟨1, 0, 0, result.latestBlock, false⟩)) w3 :=
    .bind hTrans hFetch (.bind hTrans hPage (.bind hTrans hCommit (.ret (.refl w3))))
  have hDrain : drainOnce config memory =
      drainPages config (999 + 1) since none memory0 ⟨0, 0, 0, 0, false⟩ := by
    unfold drainOnce
    rw [hSince]
    rfl
  rw [← hDrain] at hPages
  exact ⟨_, memory', _, w3, hPages, hCursor⟩

end Stalled

section FullWindow

def hexDigit (d : Nat) : Char := Char.ofNat (if d < 10 then 48 + d else 87 + d)

def idText (n : Nat) : String :=
  String.ofList (List.replicate 29 '0' ++
    [hexDigit (n / 256 % 16), hexDigit (n / 16 % 16), hexDigit (n % 16)])

theorem hexNibble_hexDigit {d : Nat} (h : d < 16) : hexNibble (hexDigit d) = some d := by
  have hAll : ∀ d : Fin 16, hexNibble (hexDigit d) = some d.1 := by decide
  exact hAll ⟨d, h⟩

theorem parseAgreementId_idText {n : Nat} (h : n < 4096) :
    parseAgreementId (idText n) = some (Fin.ofNat (2 ^ 128) n) := by
  have hDigit : ∀ d, d % 16 < 16 := fun d => Nat.mod_lt d (by decide)
  have hMark : stripHexMark (idText n).toList = (idText n).toList := by
    rw [idText, String.toList_ofList]
    rfl
  have hZeros : (List.replicate 29 '0').foldl
      (fun acc c => do return 16 * (← acc) + (← hexNibble c)) (some 0) = some 0 := by decide
  unfold parseAgreementId parseFixedHex
  dsimp only
  rw [hMark, idText, String.toList_ofList, if_pos (by simp), parseHex, List.foldl_append, hZeros]
  simp only [List.foldl_cons, List.foldl_nil, hexNibble_hexDigit (hDigit _)]
  change (some (Fin.ofNat (2 ^ 128)
    (16 * (16 * (16 * 0 + n / 256 % 16) + n / 16 % 16) + n % 16))) = _
  congr 2
  omega

/-- The agreements 0 to 999 changed at block 9, and agreement 1000 at block 10. -/
def crowdedRow (n : Nat) : AgreementStateSnapshot :=
  sampleSnapshot (Fin.ofNat (2 ^ 128) n) .accepted 9 5 0

def crowdedEntity (n : Nat) : IndexingAgreementEntity :=
  sampleEntity (idText n) "Accepted" "9" "5" "0"

theorem parseSnapshot_crowdedEntity {n : Nat} (h : n < 4096) :
    parseSnapshot (crowdedEntity n) = some (crowdedRow n) := by
  have hIndexer : parseAddress (crowdedEntity n).indexer = some 1 := by
    change parseAddress "0x0000000000000000000000000000000000000001" = some 1
    decide +kernel
  have hCanceledBy : parseAddressOrZero (crowdedEntity n).canceledBy = some 7 := by
    change parseAddressOrZero (sampleEntity "" "" "" "" "").canceledBy = some 7
    decide +kernel
  have hBlock : parseU64 (crowdedEntity n).lastStateChangeBlock = some 9 := by
    change parseU64 "9" = some 9
    decide +kernel
  have hAccepted : parseBigintTimestamp (crowdedEntity n).acceptedAt = 5 := by
    change parseBigintTimestamp "5" = 5
    decide +kernel
  have hCanceled : parseBigintTimestamp (crowdedEntity n).canceledAt = 0 := by
    change parseBigintTimestamp "0" = 0
    decide +kernel
  have hId : parseAgreementId (crowdedEntity n).id = some (Fin.ofNat (2 ^ 128) n) :=
    parseAgreementId_idText h
  unfold parseSnapshot
  rw [hId, hIndexer, hCanceledBy, hBlock, hAccepted, hCanceled]
  rfl

theorem crowdedRow_lt {n m : Nat} (h : n < m) (hm : m < 4096) :
    (crowdedRow n).cursor < (crowdedRow m).cursor := by
  refine Cursor.lt_iff.mpr (.inr ⟨rfl, WithBot.coe_lt_coe.mpr ?_⟩)
  change n % 2 ^ 128 < m % 2 ^ 128
  omega

theorem parseFailureCursor_crowdedEntity {n : Nat} (h : n < 4096) :
    parseFailureCursor (crowdedEntity n) = some (crowdedRow n).cursor := by
  have hBlock : parseU64 (crowdedEntity n).lastStateChangeBlock = some 9 := by
    change parseU64 "9" = some 9
    decide +kernel
  have hId : parseAgreementId (crowdedEntity n).id = some (Fin.ofNat (2 ^ 128) n) :=
    parseAgreementId_idText h
  unfold parseFailureCursor
  rw [hId, hBlock]
  rfl

theorem renders_crowdedEntity {n : Nat} (h : n < 4096) :
    Renders (crowdedRow n) (crowdedEntity n) := by
  constructor
  · intro x hx
    rw [parseSnapshot_crowdedEntity h] at hx
    obtain rfl := Option.some.inj hx
    exact ⟨rfl, .inl rfl, .inl rfl⟩
  · intro c hc
    rw [parseFailureCursor_crowdedEntity h] at hc
    obtain rfl := Option.some.inj hc
    exact ⟨rfl, .inr rfl⟩

section Rows

variable {count : Nat} (hCount : count ≤ 4096)

include hCount

theorem crowdedRows_sorted : ((List.range count).map crowdedRow).Pairwise
    fun a b => a.cursor < b.cursor := by
  refine List.pairwise_map.mpr ?_
  refine List.pairwise_lt_range.imp_of_mem fun _ hm hLt => crowdedRow_lt hLt ?_
  have hRange := List.mem_range.mp hm
  omega

theorem crowdedRows_unique : (((List.range count).map crowdedRow).map (·.agreementId)).Nodup := by
  have hSorted := crowdedRows_sorted hCount
  refine List.pairwise_map.mpr (hSorted.imp_of_mem fun ha hb hLt hEq => ?_)
  obtain ⟨n, -, rfl⟩ := List.mem_map.mp ha
  obtain ⟨m, -, rfl⟩ := List.mem_map.mp hb
  refine absurd hLt (not_lt.mpr (le_of_eq ?_))
  exact congrArg (fun id => Cursor.mk 9 (some id)) hEq.symm

theorem crowdedEntities_parse :
    ∀ e ∈ (List.range count).map crowdedEntity, (parseSnapshot e).isSome = true := by
  intro e he
  obtain ⟨n, hn, rfl⟩ := List.mem_map.mp he
  have hRange := List.mem_range.mp hn
  rw [parseSnapshot_crowdedEntity (by omega)]
  rfl

theorem filterMap_crowdedEntities :
    ((List.range count).map crowdedEntity).filterMap parseSnapshot =
      (List.range count).map crowdedRow := by
  rw [List.filterMap_map, ← List.filterMap_eq_map]
  refine List.filterMap_congr fun n hn => ?_
  have hRange := List.mem_range.mp hn
  exact parseSnapshot_crowdedEntity (by omega)

theorem renders_crowdedEntities :
    List.Forall₂ Renders ((List.range count).map crowdedRow)
      ((List.range count).map crowdedEntity) := by
  refine List.forall₂_map_left_iff.mpr (List.forall₂_map_right_iff.mpr ?_)
  refine List.forall₂_same.mpr fun n hn => ?_
  have hRange := List.mem_range.mp hn
  exact renders_crowdedEntity (by omega)

end Rows

theorem subgraphPageSize_le : subgraphPageSize ≤ 4096 := by decide

/-- A page of agreements that changed at block 9, and one that changed at block 10. -/
def crowdedGraph : Subgraph where
  rows := (List.range subgraphPageSize).map crowdedRow ++ [sampleSnapshot 5000 .accepted 10 5 0]
  head := 10
  headTimestamp := none
  sorted := by
    refine List.pairwise_append.mpr ⟨crowdedRows_sorted subgraphPageSize_le,
      List.pairwise_singleton _ _, ?_⟩
    intro a ha b hb
    obtain ⟨n, -, rfl⟩ := List.mem_map.mp ha
    obtain rfl := List.mem_singleton.mp hb
    exact Cursor.lt_of_block_lt (show 9 < 10 by decide)
  unique := by
    rw [List.map_append]
    refine List.nodup_append.mpr ⟨crowdedRows_unique subgraphPageSize_le, List.nodup_singleton _, ?_⟩
    intro a ha b hb hEq
    obtain ⟨x, hx, rfl⟩ := List.mem_map.mp ha
    obtain ⟨n, hn, rfl⟩ := List.mem_map.mp hx
    obtain rfl := List.mem_singleton.mp hb
    have hRange := List.mem_range.mp hn
    have hVal : n % 2 ^ 128 = 5000 := congrArg Fin.val hEq
    have hSize := subgraphPageSize_le
    omega

theorem crowdedGraph_block {s : AgreementStateSnapshot} (hs : s ∈ crowdedGraph.rows) :
    9 ≤ s.lastStateChangeBlock ∧ s.lastStateChangeBlock ≤ 10 := by
  rcases List.mem_append.mp hs with hs | hs
  · obtain ⟨n, -, rfl⟩ := List.mem_map.mp hs
    exact ⟨le_refl 9, show 9 ≤ 10 by decide⟩
  · obtain rfl := List.mem_singleton.mp hs
    decide

theorem page_crowdedGraph :
    crowdedGraph.page (.atBlock 9) = (List.range subgraphPageSize).map crowdedRow := by
  have hAll : crowdedGraph.rows.filter (fun s => Cursor.atBlock 9 < s.cursor) =
      crowdedGraph.rows := by
    refine List.filter_eq_self.mpr fun s hs => decide_eq_true ?_
    exact Cursor.atBlock_lt (crowdedGraph_block hs).1 _
  rw [Subgraph.page, hAll]
  exact List.take_left' (by rw [List.length_map, List.length_range])

def crowdedResponse : ChangedAgreementsResponse :=
  ⟨(List.range subgraphPageSize).map crowdedEntity, 10, none⟩

theorem indexingAgreements_crowdedResponse : crowdedResponse.indexingAgreements =
    (List.range subgraphPageSize).map crowdedEntity := by
  unfold crowdedResponse
  with_reducible rfl

theorem answers_crowdedResponse : crowdedGraph.Answers (.atBlock 9) crowdedResponse := by
  refine ⟨rfl, ?_, fun s hs => (crowdedGraph_block hs).2⟩
  rw [page_crowdedGraph, indexingAgreements_crowdedResponse]
  exact renders_crowdedEntities subgraphPageSize_le

theorem readPage_crowdedResponse : readPage (.atBlock 9) crowdedResponse =
    .ok ⟨(List.range subgraphPageSize).map crowdedRow, 10, none, (crowdedRow 999).cursor⟩ := by
  have hFull : crowdedResponse.indexingAgreements.length ≥ subgraphPageSize := by
    rw [indexingAgreements_crowdedResponse, List.length_map, List.length_range]
  have hLast : lastCursorOr ((List.range subgraphPageSize).map crowdedRow) (.atBlock 9) =
      (crowdedRow 999).cursor := by
    simp [lastCursorOr, List.getLast?_map, List.getLast?_range, subgraphPageSize]
  have hParse : ∀ e ∈ crowdedResponse.indexingAgreements, (parseSnapshot e).isSome = true := by
    rw [indexingAgreements_crowdedResponse]
    exact crowdedEntities_parse subgraphPageSize_le
  rw [readPage_of_parse hParse, if_pos hFull, indexingAgreements_crowdedResponse,
    filterMap_crowdedEntities subgraphPageSize_le, hLast,
    validateSortedKeyset_of_sorted (crowdedRows_sorted subgraphPageSize_le)]
  simp only [crowdedResponse, Except.map]

/-- A page of rows is read again at each drain and agreement 5000's accept is never reached. -/
theorem full_window_stays : ∃ w tr memory' outcome w',
    (drainOnce sampleConfig { cursor := .atBlock 10 }).Runs Performed World.Steady w tr
      (some (memory', .ok outcome)) w' ∧
    (∃ s ∈ w.indexed.graph.rows, Cursor.atBlock 10 < s.cursor) ∧
    ¬ Cursor.atBlock 10 < memory'.cursor := by
  let w : World := { World.fresh 5 5 sampleRequests with
    indexed := ⟨crowdedGraph, (World.fresh 5 5 sampleRequests).chain⟩ }
  have hParse : ∀ e ∈ crowdedResponse.indexingAgreements, (parseSnapshot e).isSome = true := by
    rw [indexingAgreements_crowdedResponse]
    exact crowdedEntities_parse subgraphPageSize_le
  have hStay : ¬ Cursor.atBlock 10 < (crowdedRow 999).cursor :=
    not_lt.mpr (le_of_lt (Cursor.lt_of_block_lt (show 9 < 10 by decide)))
  obtain ⟨tr, memory', outcome, w', hRun, hCursor⟩ :=
    exists_stalled_drain sampleConfig { cursor := .atBlock 10 } (w := w) rfl
      answers_crowdedResponse hParse readPage_crowdedResponse rfl hStay
  refine ⟨w, tr, memory', outcome, w', hRun, ⟨sampleSnapshot 5000 .accepted 10 5 0,
    List.mem_append_right _ (List.mem_singleton.mpr rfl), by decide⟩, ?_⟩
  rw [hCursor]
  exact lt_irrefl _

end FullWindow

end Progress

end Listener

end Dipper
