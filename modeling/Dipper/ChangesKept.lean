import Dipper.DrainRuns
import Dipper.System

/-! No change of the subgraph is lost silently, as long as the timestamps of its responses parse.  A
row behind the position the next drain starts from has been applied as it stands, or told of as
skipped; and where nothing comes in behind a held cursor, a row is only passed over unapplied after
it has failed for as long as the cursor is held.  An accept time that does not parse reads as 0, and
the accept of an agreement cancelled since is dropped with it. -/

namespace Dipper

open Concurrent World

section Times

variable {s x : AgreementStateSnapshot} {e : IndexingAgreementEntity}

/-- The timestamps of the entity read as those of the row: one that is set parses, and one that is
not may be empty. -/
def IndexingAgreementEntity.HasTimes (e : IndexingAgreementEntity) (s : AgreementStateSnapshot) :
    Prop :=
  parseBigintTimestamp e.acceptedAt = s.acceptedAt ∧
    parseBigintTimestamp e.canceledAt = s.canceledAt

instance (e : IndexingAgreementEntity) (s : AgreementStateSnapshot) : Decidable (e.HasTimes s) := by
  unfold IndexingAgreementEntity.HasTimes
  infer_instance

theorem times_of_parseSnapshot (hx : x ∈ parseSnapshot e) :
    x.acceptedAt = parseBigintTimestamp e.acceptedAt ∧
      x.canceledAt = parseBigintTimestamp e.canceledAt := by
  unfold parseSnapshot at hx
  simp only [Option.mem_def, Option.bind_eq_bind, Option.bind_eq_some_iff, Option.pure_def,
    Option.some.injEq] at hx
  obtain ⟨_, -, _, -, _, -, _, -, _, -, rfl⟩ := hx
  exact ⟨rfl, rfl⟩

theorem Renders.eq (h : Renders s e) (hTimes : e.HasTimes s) (hx : x ∈ parseSnapshot e) :
    x = s := by
  obtain ⟨hAccepted, hCanceled⟩ := times_of_parseSnapshot hx
  rw [(h.1 x hx).1, hAccepted, hCanceled, hTimes.1, hTimes.2]

theorem mem_rows_of_times {rows : List AgreementStateSnapshot}
    {entities : List IndexingAgreementEntity} (hRenders : List.Forall₂ Renders rows entities)
    (hTimes : List.Forall₂ (fun s e => (parseSnapshot e).isSome = true → e.HasTimes s) rows
      entities) :
    ∀ x ∈ entities.filterMap parseSnapshot, x ∈ rows := by
  induction hRenders with
  | nil => exact nofun
  | @cons s e rows entities hRender _ ih =>
    obtain ⟨hTime, hRest⟩ := List.forall₂_cons.mp hTimes
    intro x hx
    obtain ⟨e', he, hParse⟩ := List.mem_filterMap.mp hx
    rcases List.mem_cons.mp he with rfl | he
    · rw [hRender.eq (hTime (by rw [hParse]; rfl)) hParse]
      exact List.mem_cons_self
    · exact List.mem_cons_of_mem _ (ih hRest x (List.mem_filterMap.mpr ⟨e', he, hParse⟩))

end Times

namespace Listener

/-- What parses of a response has timestamps that parse. -/
def TimesParse (w : World) : Op → Choice → Prop
  | .getChanged since pinned, .page r =>
    List.Forall₂ (fun s e => (parseSnapshot e).isSome = true → e.HasTimes s)
      ((w.pin pinned).pinned.graph.page since) r.indexingAgreements
  | _, _ => True

/-- No row of a response comes malformed, nor do its timestamps. -/
def PagesParse (w : World) : Op → Choice → Prop
  | .getChanged since pinned, .page r =>
    List.Forall₂ (fun s e => (parseSnapshot e).isSome = true ∧ e.HasTimes s)
      ((w.pin pinned).pinned.graph.page since) r.indexingAgreements
  | _, _ => True

instance (w : World) (o : Op) (c : Choice) : Decidable (TimesParse w o c) := by
  induction o using Op.casesOn with
  | getChanged since pinned =>
    induction c using Choice.casesOn with
    | page r => exact List.instDecidableForall₂ _ _
    | _ => exact isTrue trivial
  | _ => exact isTrue trivial

instance (w : World) (o : Op) (c : Choice) : Decidable (PagesParse w o c) := by
  induction o using Op.casesOn with
  | getChanged since pinned =>
    induction c using Choice.casesOn with
    | page r => exact List.instDecidableForall₂ _ _
    | _ => exact isTrue trivial
  | _ => exact isTrue trivial


theorem runs_drainOnce (ok : ChangedAgreementsResponse → Prop) {config : Config}
    {allow : World → Op → Choice → Prop}
    (hOk : ∀ w since pinned r, allow w (.getChanged since pinned) (.page r) →
      (w.pin pinned).pinned.graph.Answers since r → ok r ∧ (w.pin pinned).pinned.graph.Exact r)
    {memory memory' : ListenerMemory} {result : Except Unit DrainOutcome} {w w' : World}
    {tr : List (Action World Op)}
    (run : (drainOnce config memory).Runs (World.Performs allow) World.Steady w tr
      (some (memory', result)) w') :
    ∃ pages, DrainsBy ok w.indexed.graph (effectiveCursor config.reorgBufferBlocks memory.cursor)
        tr w w' memory memory' pages ∧
      (pages ≠ [] → memory'.lastSubgraphHead = w.indexed.graph.head) := by
  have hPage : ∀ w since pinned r w', World.Performs allow w (.getChanged since pinned) (.ok r) w' →
      ok r ∧ (w.pin pinned).pinned.graph.Exact r := by
    rintro w since pinned r w' ⟨c, hAllow, hExec⟩
    cases c with
    | page response =>
      simp only [World.exec, runQuery] at hExec
      split at hExec
      · rename_i hAnswers
        obtain rfl := Except.ok.inj (Prod.mk.inj (Option.some.inj hExec)).1
        exact hOk _ _ _ _ hAllow hAnswers
      · cases hExec
    | _ => cases hExec
  have hSem : ∀ w o r w', World.Performs allow w o r w' → ∃ c, w.exec o c = some (r, w') := by
    rintro w o r w' ⟨c, -, hExec⟩
    exact ⟨c, hExec⟩
  obtain ⟨pages, hDrains, hHead, -⟩ := runs_drainPages (g := w.indexed.graph) hSem hPage
    maxPagesPerDrain rfl rfl run
  -- The drain begins by forgetting checks of changes it no longer reads.
  have hForgets : QueuesIn tr memory.liveChecks (forgetBefore
      (effectiveCursor config.reorgBufferBlocks memory.cursor).block memory.liveChecks) :=
    fun change hMem => .inl (List.mem_filter.mp hMem).1
  exact ⟨pages, ⟨hDrains.drained,
    fun page hMem => (hDrains.deals page hMem).mono (List.Subset.refl _) hForgets,
    hForgets.trans hDrains.queues, hDrains.indexed⟩, hHead rfl⟩

/-- The row has been applied as it stands, or was among the changes told of as skipped. -/
def Accounted (drains : List (List (Action World Op))) (s : AgreementStateSnapshot) : Prop :=
  Applied drains s ∨ ∃ tr ∈ drains, SkippedIn tr s

/-- The row has been applied as it stands, or failed for as long as the cursor is held. -/
def Resolved (drains : List (List (Action World Op))) (s : AgreementStateSnapshot) : Prop :=
  Applied drains s ∨ FailedTwice drains s

/-- The state a run of drains goes on from: the cursor is past the reorg buffer and no further than
past the highest head, the registry's is not past it, the chain checks the listener takes for queued
are, and of the rows the next drain will not read `done` holds. -/
structure Polling.Sound (config : Config)
    (done : List (List (Action World Op)) → AgreementStateSnapshot → Prop) (p : Polling) :
    Prop where
  buffer : config.reorgBufferBlocks < p.memory.cursor.block
  head : p.memory.cursor.block ≤ p.highestHead + 1
  persisted : ∀ c ∈ p.persisted, c ≤ p.memory.cursor
  checks : ∀ change ∈ p.memory.liveChecks, ∃ tr ∈ p.drains, CheckQueuedFor tr change
  rows : ∀ s ∈ p.rows, s.cursor < p.start config → done p.drains s

theorem Applied.mono {drains drains' : List (List (Action World Op))} {s : AgreementStateSnapshot}
    (h : Applied drains s) (hSub : drains ⊆ drains') : Applied drains' s := by
  obtain ⟨tr, hMem, unapplied, hPage, hNot, hWrites⟩ := h
  refine ⟨tr, hSub hMem, unapplied, hPage, hNot, hWrites.mono (List.Subset.refl _) ?_⟩
  rintro change ⟨tr', hMem', hQueued⟩
  exact ⟨tr', hSub hMem', hQueued⟩

section Deals

variable {drains : List (List (Action World Op))} {tr : List (Action World Op)}
  {queued : List (IndexingAgreementId × Nat)} {page : PageRecord} {s : AgreementStateSnapshot}

theorem Deals.applies (h : Deals tr queued page)
    (hChecks : ∀ change ∈ queued, ∃ tr ∈ drains, CheckQueuedFor tr change)
    (hs : s ∈ page.snapshots) (hNot : s.agreementId ∉ page.unapplied) :
    Applied (drains ++ [tr]) s := by
  refine ⟨tr, by simp, _, ⟨_, _, h.done, hs⟩, hNot, (h.applied s hs hNot).mono
    (List.Subset.refl _) fun change hChecked => ?_⟩
  rcases hChecked with hBefore | hQueued
  · obtain ⟨tr', hMem, hQueued⟩ := hChecks change hBefore
    exact ⟨tr', by simp [hMem], hQueued⟩
  · exact ⟨tr, by simp, hQueued⟩

theorem Deals.failedIn (h : Deals tr queued page) (hs : s ∈ page.snapshots)
    (hUnapplied : s.agreementId ∈ page.unapplied) : FailedIn tr s page.now :=
  ⟨_, ⟨_, _, h.done, hs⟩, hUnapplied, h.clock⟩

theorem Deals.skippedIn (h : Deals tr queued page) (hs : s ∈ page.snapshots)
    (hUnapplied : s.agreementId ∈ page.unapplied) (hSkips : page.skips = true) : SkippedIn tr s :=
  ⟨_, ⟨_, _, h.done, hs⟩, hUnapplied, h.skipped hSkips⟩

end Deals

section Sample

def laterGraph : Subgraph where
  rows := [sampleSnapshot 10 .accepted 3 5 0, sampleSnapshot 11 .accepted 9 5 0]
  head := 20
  headTimestamp := none
  sorted := by decide
  unique := by decide

def laterEntity : IndexingAgreementEntity :=
  sampleEntity "0x0000000000000000000000000000000b" "Accepted" "9" "5" "0"

/-- The listener before its first drain, with its cursor at block 2. -/
def firstPolling (w : World) : Polling := ⟨{ cursor := .atBlock 2 }, w, 1, []⟩

theorem firstPolling_sound (done : List (List (Action World Op)) → AgreementStateSnapshot → Prop)
    {w : World} (hState : w.listenerState = none)
    (hRows : ∀ s ∈ w.indexed.graph.rows, 0 < s.lastStateChangeBlock) :
    (firstPolling w).Sound sampleConfig done where
  buffer := show 1 < 2 by decide
  head := show 2 ≤ 1 + 1 by decide
  persisted c hc := by simp [Polling.persisted, firstPolling, hState] at hc
  checks := nofun
  rows s hs hBefore := by
    have hBlock : s.lastStateChangeBlock + 1 < 2 :=
      (lt_effectiveCursor_iff (by decide) (show 1 < 2 by decide)).mp hBefore
    have hLater := hRows s hs
    omega

/-- The pages a drain has told of: the snapshots of each, and those left unapplied. -/
def pagesTold (tr : List (Action World Op)) :
    List (List AgreementStateSnapshot × List IndexingAgreementId) :=
  tr.filterMap fun e => match e.op with
    | .note (.pageDone _ snapshots unapplied) => some (snapshots, unapplied)
    | _ => none

theorem OnPage.told {tr : List (Action World Op)} {x : AgreementStateSnapshot}
    {unapplied : List IndexingAgreementId} (h : OnPage tr x unapplied) :
    ∃ snapshots, (snapshots, unapplied) ∈ pagesTold tr ∧ x ∈ snapshots := by
  obtain ⟨since, snapshots, ⟨e, he, hOp⟩, hx⟩ := h
  refine ⟨snapshots, List.mem_filterMap.mpr ⟨e, he, ?_⟩, hx⟩
  rw [hOp]

/-- The listener after the drain whose calls come out as given, with the memory it leaves. -/
def Polling.played (config : Config) (allow : World → Op → Choice → Prop)
    [∀ w o c, Decidable (allow w o c)] (p : Polling) (choices : List Choice)
    (memory : ListenerMemory) : Polling where
  memory := memory
  world := ((drainOnce config p.memory).play (World.execAllowed allow) p.world choices).2.2
  highestHead := max p.highestHead memory.lastSubgraphHead
  drains := p.drains ++
    [((drainOnce config p.memory).play (World.execAllowed allow) p.world choices).1]

theorem Polling.Step.play {config : Config} {allow : World → Op → Choice → Prop}
    {still : ListenerMemory → Prop} [∀ w o c, Decidable (allow w o c)] {p : Polling}
    {choices : List Choice} {memory : ListenerMemory} {result : Except Unit DrainOutcome}
    (hOut : ((drainOnce config p.memory).play (World.execAllowed allow) p.world choices).2.1 =
      some (memory, result)) :
    p.Step config allow still (p.played config allow choices memory) := by
  have hRun : (drainOnce config p.memory).Runs (World.Performs allow) World.Steady p.world _ _ _ :=
    Prog.runs_play World.Steady.refl
      (fun w o c r w' (h : w.execAllowed allow o c = some (r, w')) => performs_of_execAllowed h)
      (drainOnce config p.memory) p.world choices
  rw [hOut] at hRun
  exact .drain hRun

end Sample

section Steps

variable {config : Config} {allow : World → Op → Choice → Prop} {still : ListenerMemory → Prop}
  {done : List (List (Action World Op)) → AgreementStateSnapshot → Prop} {p p' : Polling}

/-- The cursors of the listener and of the registry do not move backwards. -/
def Polling.Forward (p p' : Polling) : Prop :=
  p.memory.cursor ≤ p'.memory.cursor ∧ ∀ c ∈ p.persisted, ∃ c' ∈ p'.persisted, c ≤ c'

theorem Polling.Forward.refl (p : Polling) : p.Forward p :=
  ⟨le_refl _, fun c hc => ⟨c, hc, le_refl c⟩⟩

theorem Polling.Forward.trans {p'' : Polling} (h : p.Forward p') (h' : p'.Forward p'') :
    p.Forward p'' := by
  refine ⟨h.1.trans h'.1, fun c hc => ?_⟩
  obtain ⟨c', hc', hLe⟩ := h.2 c hc
  obtain ⟨c'', hc'', hLe'⟩ := h'.2 c' hc'
  exact ⟨c'', hc'', hLe.trans hLe'⟩

/-- The cursor the registry has is not past the listener's. -/
def Polling.Ahead (p : Polling) : Prop := ∀ c ∈ p.persisted, c ≤ p.memory.cursor

theorem Polling.Step.forward (hStep : p.Step config allow still p') (h : p.Ahead) :
    p.Forward p' ∧ p'.Ahead := by
  cases hStep with
  | @change w' hState _ _ =>
    have hSame : Polling.persisted { p with world := w' } = p.persisted := by
      simp only [Polling.persisted, hState]
    refine ⟨⟨le_refl _, fun c hc => ⟨c, ?_, le_refl c⟩⟩, fun c hc => h c ?_⟩
    · rw [hSame]
      exact hc
    · rw [← hSame]
      exact hc
  | @drain memory result tr w' run =>
    have hSem : ∀ w o r w', World.Performs allow w o r w' → ∃ c, w.exec o c = some (r, w') := by
      rintro w o r w' ⟨c, -, hExec⟩
      exact ⟨c, hExec⟩
    unfold drainOnce at run
    have hForward := forward_of_drainPages hSem _ run
    obtain ⟨hLe, hPersisted⟩ : p.memory.cursor ≤ memory.cursor ∧
      PersistedUpTo p.memory.cursor memory.cursor p.world w' := hForward
    refine ⟨⟨hLe, fun c hc => ?_⟩, fun c hc => ?_⟩
    · obtain ⟨state, hState, rfl⟩ := Option.map_eq_some_iff.mp hc
      rcases hPersisted with hSame | ⟨cursor, ts, hSet, hFrom, -⟩
      · refine ⟨state.1, ?_, le_refl _⟩
        simp only [Polling.persisted, hSame, hState]
        rfl
      · refine ⟨cursor, ?_, (h _ hc).trans hFrom⟩
        simp only [Polling.persisted, hSet]
        rfl
    · obtain ⟨state, hState, rfl⟩ := Option.map_eq_some_iff.mp hc
      rcases hPersisted with hSame | ⟨cursor, ts, hSet, -, hTo⟩
      · rw [hSame] at hState
        refine (h _ ?_).trans hLe
        simp only [Polling.persisted, hState]
        rfl
      · rw [hSet] at hState
        obtain rfl := Option.some.inj hState
        exact hTo

theorem Polling.Reaches.forward (hRun : Polling.Reaches config allow still p p') (h : p.Ahead) :
    p.Forward p' ∧ p'.Ahead := by
  induction hRun with
  | refl => exact ⟨.refl p, h⟩
  | tail _ hStep ih =>
    obtain ⟨hForward, hAhead⟩ := hStep.forward ih.2
    exact ⟨ih.1.trans hForward, hAhead⟩

/-- A change between two drains leaves the rows that are not read again as they were. -/
theorem Polling.Sound.change (hPos : 0 < config.reorgBufferBlocks) (h : p.Sound config done)
    {w' : World} (hAhead : Polling.Ahead { p with world := w' })
    (hRows : ∀ s ∈ w'.indexed.graph.rows, s ∈ p.rows ∨
      p.highestHead < s.lastStateChangeBlock + config.reorgBufferBlocks) :
    Polling.Sound config done { p with world := w' } where
  buffer := h.buffer
  head := h.head
  persisted := hAhead
  checks := h.checks
  rows s hs hBefore := by
    rcases hRows s hs with hOld | hNew
    · exact h.rows s hOld hBefore
    · have hBlock := (lt_effectiveCursor_iff hPos h.buffer).mp hBefore
      have hHead := h.head
      exact absurd hNew (by omega)

/-- The rows a drain will not read again are done with if those it moved past are. -/
theorem Polling.Sound.drain (hPos : 0 < config.reorgBufferBlocks) (h : p.Sound config done)
    {ok : ChangedAgreementsResponse → Prop} {tr : List (Action World Op)} {w' : World}
    {memory : ListenerMemory} {pages : List PageRecord}
    (hDrains : DrainsBy ok p.world.indexed.graph (p.start config) tr p.world w' p.memory memory
      pages)
    (hHead : pages ≠ [] → memory.lastSubgraphHead = p.world.indexed.graph.head)
    (hAhead : Polling.Ahead
      ⟨memory, w', max p.highestHead memory.lastSubgraphHead, p.drains ++ [tr]⟩)
    (hOld : ∀ s, done p.drains s → done (p.drains ++ [tr]) s)
    (hNew : ∀ s ∈ p.rows, p.start config < s.cursor → s.cursor ≤ memory.cursor →
      memory.cursor ≠ p.memory.cursor → done (p.drains ++ [tr]) s) :
    Polling.Sound config done
      ⟨memory, w', max p.highestHead memory.lastSubgraphHead, p.drains ++ [tr]⟩ where
  buffer := Nat.lt_of_lt_of_le h.buffer (Cursor.block_le_of_le hDrains.drained.le)
  head := by
    change memory.cursor.block ≤ max p.highestHead memory.lastSubgraphHead + 1
    have hOldHead := h.head
    rcases hDrains.drained.block_le effectiveCursor_le with hSame | hBlock
    · rw [hSame]
      omega
    · by_cases hNil : pages = []
      · subst hNil
        have hSame := hDrains.drained.eq_of_nil
        rw [hSame]
        omega
      · have := hHead hNil
        omega
  persisted := hAhead
  checks change hMem := by
    rcases hDrains.queues change hMem with hBefore | hQueued
    · obtain ⟨tr', hMem', hQueued⟩ := h.checks change hBefore
      exact ⟨tr', by simp [hMem'], hQueued⟩
    · exact ⟨tr, by simp, hQueued⟩
  rows := by
    intro s hs hBefore
    have hRow : s ∈ p.rows := by
      rw [Polling.rows, ← hDrains.indexed]
      exact hs
    by_cases hRead : s.cursor < p.start config
    · exact hOld s (h.rows s hRow hRead)
    · have hTo : s.cursor ≤ memory.cursor := (le_of_lt hBefore).trans effectiveCursor_le
      refine hNew s hRow (effectiveCursor_lt hPos h.buffer hRead) hTo fun hSame => hRead ?_
      have hStart : s.cursor < effectiveCursor config.reorgBufferBlocks memory.cursor := hBefore
      rw [hSame] at hStart
      exact hStart

theorem Accounted.mono {drains drains' : List (List (Action World Op))}
    {s : AgreementStateSnapshot} (h : Accounted drains s) (hSub : drains ⊆ drains') :
    Accounted drains' s := by
  rcases h with hApplied | ⟨tr, hMem, hSkipped⟩
  · exact .inl (hApplied.mono hSub)
  · exact .inr ⟨tr, hSub hMem, hSkipped⟩

/-- One step of a run in which anything may fail but the timestamps of what parses. -/
theorem Polling.Sound.step (hPos : 0 < config.reorgBufferBlocks) (h : p.Sound config Accounted)
    (hStep : p.Step config TimesParse still p') : p'.Sound config Accounted := by
  have hAhead := (hStep.forward h.persisted).2
  cases hStep with
  | change _ hRows _ => exact h.change hPos hAhead hRows
  | @drain memory result tr w' run =>
    obtain ⟨pages, hDrains, hHead⟩ := runs_drainOnce (fun _ => True)
      (fun _ _ _ _ hTimes hAnswers => ⟨trivial, fun x hx =>
        (Subgraph.mem_of_mem_page (mem_rows_of_times hAnswers.2.1 hTimes x hx)).1⟩) run
    refine h.drain hPos hDrains hHead hAhead
      (fun s hDone => hDone.mono (List.subset_append_left _ _)) fun s hs hStart hTo hMoved => ?_
    obtain ⟨page, hMem, hSkips, hOn⟩ := hDrains.drained.covers hMoved hs hStart hTo
    have hDeals := hDrains.deals page hMem
    by_cases hUnapplied : s.agreementId ∈ page.unapplied
    · rcases hSkips with hEmpty | hSkips
      · rw [hEmpty] at hUnapplied
        cases hUnapplied
      · exact .inr ⟨tr, by simp, hDeals.skippedIn hOn hUnapplied hSkips⟩
    · exact .inl (hDeals.applies h.checks hOn hUnapplied)

/-- In every run of drains, whatever comes out and however the subgraph changes within the reorg
buffer, the cursors never move backwards.  Where what parses of the responses has timestamps that
parse, every row behind the position the next drain starts from has been applied as it stands or
told of as skipped. -/
theorem no_change_lost (hPos : 0 < config.reorgBufferBlocks) (hStart : p.Sound config Accounted) :
    (∀ p1 p2, Polling.Reaches config (fun _ _ _ => True) (fun _ => False) p p1 →
      Polling.Reaches config (fun _ _ _ => True) (fun _ => False) p1 p2 →
      p1.memory.cursor ≤ p2.memory.cursor ∧ ∀ c ∈ p1.persisted, ∃ c' ∈ p2.persisted, c ≤ c') ∧
    ∀ p', Polling.Reaches config TimesParse (fun _ => False) p p' →
      ∀ s ∈ p'.rows, s.cursor < p'.start config → Accounted p'.drains s := by
  refine ⟨fun p1 p2 h1 h2 => (h2.forward (h1.forward hStart.persisted).2).1, fun p' hRun => ?_⟩
  have hSound : p'.Sound config Accounted := by
    induction hRun with
    | refl => exact hStart
    | tail _ hStep ih => exact ih.step hPos hStep
  exact hSound.rows

/-- Agreement 10 has been accepted at 5 and cancelled by the payer at 7. -/
def cancelledGraph : Subgraph where
  rows := [sampleSnapshot 10 .canceledByPayer 3 5 7]
  head := 9
  headTimestamp := none
  sorted := by decide
  unique := by decide

/-- Its entity, with an accept time that does not parse. -/
def unparsedEntity : IndexingAgreementEntity :=
  sampleEntity "0x0000000000000000000000000000000a" "CanceledByPayer" "3" "not-a-number" "7"

/-- The listener before it reads that subgraph, with the row of agreement 10 as it was offered. -/
def cancelledPolling : Polling :=
  firstPolling { offeredWorld with indexed := ⟨cancelledGraph, offeredWorld.chain⟩ }

/-- A drain that reads the accept time of agreement 10 as 0 takes the agreement for a withdrawn
offer: it ends the row without its accept, and moves on with no alert. -/
theorem accept_lost_unparsed :
    cancelledPolling.Sound sampleConfig Accounted ∧ ∃ p,
    Polling.Reaches sampleConfig (fun _ _ _ => True) (fun _ => False) cancelledPolling p ∧
    (p.world.row 10).map (fun row => (row.status, row.acceptedAt)) =
      some (.canceledByRequester, none) ∧
    ∃ s ∈ p.rows, s.agreementId = 10 ∧ s.acceptedAt = 5 ∧ s.cursor < p.start sampleConfig ∧
      ¬ Accounted p.drains s := by
  refine ⟨firstPolling_sound _ rfl (by decide), ?_⟩
  let memory : ListenerMemory := { cursor := .atBlock 10, lastSubgraphHead := 9 }
  let last := cancelledPolling.played sampleConfig (fun _ _ _ => True)
    [.page ⟨[unparsedEntity], 9, none⟩, .rows [10], .answer false, .ok, .ok, .ok, .ok] memory
  have hOut : ((drainOnce sampleConfig cancelledPolling.memory).play
      (World.execAllowed fun _ _ _ => True) cancelledPolling.world
      [.page ⟨[unparsedEntity], 9, none⟩, .rows [10], .answer false, .ok, .ok, .ok, .ok]).2.1 =
      some (memory, .ok ⟨1, 1, 0, 9, false⟩) := by decide +kernel
  have hRun : Polling.Reaches sampleConfig (fun _ _ _ => True) (fun _ => False) cancelledPolling last :=
    .single (.play hOut)
  -- What the drain read of the row is not the row.
  have hUnread : ∀ tr ∈ last.drains, ∀ page ∈ pagesTold tr,
      sampleSnapshot 10 .canceledByPayer 3 5 7 ∉ page.1 := by decide +kernel
  refine ⟨last, hRun, by decide +kernel, sampleSnapshot 10 .canceledByPayer 3 5 7,
    by decide +kernel, rfl, rfl, by decide +kernel, ?_⟩
  rintro (⟨tr, hTr, unapplied, hPage, -⟩ | ⟨tr, hTr, unapplied, hPage, -⟩)
  all_goals
    obtain ⟨snapshots, hTold, hs⟩ := hPage.told
    exact hUnread tr hTr _ hTold hs

/-- The listener before it reads the accepts of agreement 10, which is offered, and of agreement 11,
which dipper has rejected. -/
def rejectedPolling : Polling :=
  firstPolling { offeredWorld.setRow 11 { sampleAgreement with status := .rejected } with
    indexed := ⟨laterGraph, offeredWorld.chain⟩ }

/-- A drain that applies the one, has the other checked on the chain and moves on: the rows are not
read again. -/
theorem accept_applied_not_lost : ∃ p,
    Polling.Reaches sampleConfig TimesParse (fun _ => False) rejectedPolling p ∧
    (∀ s ∈ p.rows, s.cursor < p.start sampleConfig) ∧ p.rows.length = 2 ∧
    p.world.jobs = [.cancelRejectedAgreementOnChain 11 (some ⟨5, "0xbb"⟩)] ∧
    ∀ s ∈ p.rows, Accounted p.drains s := by
  let memory : ListenerMemory :=
    { cursor := .atBlock 21, lastSubgraphHead := 20, liveChecks := [(11, 9)] }
  let choices : List Choice := [.page ⟨[acceptedEntity, laterEntity], 20, none⟩, .rows [10, 11],
    .answer false, .answer false, .ok, .ok, .ok, .ok, .ok, .ok]
  have hOut : ((drainOnce sampleConfig rejectedPolling.memory).play
      (World.execAllowed TimesParse) rejectedPolling.world choices).2.1 =
      some (memory, .ok ⟨1, 1, 0, 20, false⟩) := by decide +kernel
  have hRun : Polling.Reaches sampleConfig TimesParse (fun _ => False) rejectedPolling
      (rejectedPolling.played sampleConfig TimesParse choices memory) := .single (.play hOut)
  have hBehind : ∀ s ∈ (rejectedPolling.played sampleConfig TimesParse choices memory).rows,
      s.cursor < (rejectedPolling.played sampleConfig TimesParse choices memory).start
        sampleConfig := by decide +kernel
  have hKept := (no_change_lost (by decide) (firstPolling_sound _ rfl (by decide))).2 _ hRun
  exact ⟨_, hRun, hBehind, by decide +kernel, by decide +kernel, fun s hs => hKept s hs (hBehind s hs)⟩

end Steps

section Holds

variable {config : Config} {p p' : Polling}

def Held (memory : ListenerMemory) : Prop := memory.cursorHold.isSome = true

/-- The row failed in one of the drains, at `now`. -/
def FailedAt (drains : List (List (Action World Op))) (s : AgreementStateSnapshot) (now : Nat) :
    Prop :=
  ∃ tr ∈ drains, FailedIn tr s now

theorem Resolved.append {drains : List (List (Action World Op))} {s : AgreementStateSnapshot}
    (h : Resolved drains s) (tr : List (Action World Op)) : Resolved (drains ++ [tr]) s := by
  rcases h with hApplied | ⟨tr1, tr2, now1, now2, hSub, hTwice⟩
  · exact .inl (hApplied.mono (List.subset_append_left _ _))
  · exact .inr ⟨tr1, tr2, now1, now2, hSub.trans (List.sublist_append_left _ _), hTwice⟩

theorem Resolved.of_again {drains : List (List (Action World Op))} {s : AgreementStateSnapshot}
    {tr : List (Action World Op)} {since now : Nat} (h : FailedAt drains s since)
    (hFailed : FailedIn tr s now) (hLong : since + maxCursorHold ≤ now) :
    Resolved (drains ++ [tr]) s := by
  obtain ⟨tr', hMem, hFailed'⟩ := h
  refine .inr ⟨tr', tr, since, now, ?_, hFailed', hFailed, hLong⟩
  exact (List.singleton_sublist.mpr hMem).append (List.Sublist.refl [tr])

/-- The hold of a run: it is at the cursor, and every row the next drain reads first is resolved or
failed when it began. -/
def Polling.HoldSound (config : Config) (p : Polling) : Prop :=
  ∀ hold ∈ p.memory.cursorHold, HeldFor config.reorgBufferBlocks p.world.indexed.graph
    (Resolved p.drains) (FailedAt p.drains) p.memory.cursor hold

theorem exact_of_pagesParse {w : World} {since : Cursor} {pinned : Option Nat}
    {r : ChangedAgreementsResponse} (hParse : PagesParse w (.getChanged since pinned) (.page r))
    (hAnswers : (w.pin pinned).pinned.graph.Answers since r) :
    (∀ e ∈ r.indexingAgreements, (parseSnapshot e).isSome = true) ∧
      (w.pin pinned).pinned.graph.Exact r := by
  refine ⟨fun e he => ?_, fun x hx => ?_⟩
  · obtain ⟨i, hi, rfl⟩ := List.mem_iff_getElem.mp he
    exact (hParse.get (by rw [hParse.length_eq]; exact hi) hi).1
  · have hTimes : List.Forall₂ (fun s e => (parseSnapshot e).isSome = true → e.HasTimes s) _ _ :=
      List.Forall₂.imp (fun _ _ h _ => h.2) hParse
    exact (Subgraph.mem_of_mem_page (mem_rows_of_times hAnswers.2.1 hTimes x hx)).1

/-- One step of a run in which no row comes malformed and none changes while the cursor is held. -/
theorem Polling.HoldSound.step (hPos : 0 < config.reorgBufferBlocks)
    (h : p.Sound config Resolved) (hHold : p.HoldSound config)
    (hStep : p.Step config PagesParse Held p') :
    p'.Sound config Resolved ∧ p'.HoldSound config := by
  have hAhead := (hStep.forward h.persisted).2
  cases hStep with
  | @change w' hState hRows hStill =>
    refine ⟨h.change hPos hAhead hRows, fun hold hMem => ?_⟩
    obtain ⟨hCursor, hFirst⟩ := hHold hold hMem
    refine ⟨hCursor, fun s hs => hFirst s ?_⟩
    have hSame : w'.indexed.graph.rows = p.world.indexed.graph.rows :=
      hStill (Option.isSome_iff_exists.mpr ⟨hold, hMem⟩)
    rw [Subgraph.page, ← hSame]
    exact hs
  | @drain memory result tr w' run =>
    obtain ⟨pages, hDrains, hHead⟩ := runs_drainOnce
      (fun r => ∀ e ∈ r.indexingAgreements, (parseSnapshot e).isSome = true)
      (fun _ _ _ _ hParse hAnswers => exact_of_pagesParse hParse hAnswers) run
    have hTells : ∀ page ∈ pages, Tells (Resolved (p.drains ++ [tr])) (FailedAt p.drains)
        (FailedAt (p.drains ++ [tr])) page := by
      intro page hMem
      have hDeals := hDrains.deals page hMem
      constructor
      · intro s hs hNot
        exact .inl (hDeals.applies h.checks hs hNot)
      · intro s hs hUnapplied
        exact ⟨tr, by simp, hDeals.failedIn hs hUnapplied⟩
      · intro s hs hUnapplied since hFailed hLong
        exact .of_again hFailed (hDeals.failedIn hs hUnapplied) hLong
    have hKept : ∀ s now, FailedAt p.drains s now → FailedAt (p.drains ++ [tr]) s now := by
      rintro s now ⟨tr', hMem, hFailed⟩
      exact ⟨tr', by simp [hMem], hFailed⟩
    obtain ⟨hResolved, hHolds⟩ := hDrains.drained.resolves hPos (fun _ hr => hr) hKept hTells
      h.buffer (le_refl _) (fun s _ hAfter hTo => absurd hAfter (not_lt.mpr hTo)) fun hold hMem => by
        obtain ⟨hCursor, hFirst⟩ := hHold hold hMem
        exact ⟨rfl, hCursor, fun s hs => (hFirst s hs).imp_left fun hDone => hDone.append tr⟩
    refine ⟨h.drain hPos hDrains hHead hAhead (fun s hDone => hDone.append tr) hResolved, ?_⟩
    intro hold hMem
    obtain ⟨hCursor, hFirst⟩ := hHolds hold hMem
    refine ⟨hCursor, fun s hs => hFirst s ?_⟩
    rw [← hDrains.indexed]
    exact hs

/-- The same world later, with the subgraph `graph`. -/
def Polling.later (p : Polling) (now : Nat) (graph : Subgraph) : Polling :=
  { p with world := { p.world with now := now, indexed := ⟨graph, p.world.chain⟩ } }

end Holds

end Listener

end Dipper
