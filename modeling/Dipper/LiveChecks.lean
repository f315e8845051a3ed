import Dipper.Concurrent.Dialogue
import Dipper.CursorMoves
import Dipper.Registering
import Dipper.System

/-! One chain check for each change.  The reorg buffer and a held cursor have the listener read a
change again, so it remembers the changes it has queued checks for, and forgets those before the
block a drain reads from.  What the subgraph, the registry and the queue answer is left open, but
for the subgraph giving only rows past the cursor it is asked for. -/

namespace Dipper

open Concurrent Prog

namespace Listener

/-- A change of an agreement, by its block. -/
abbrev Change : Type := IndexingAgreementId × Nat

def changeOf (x : AgreementStateSnapshot) : Change := (x.agreementId, x.lastStateChangeBlock)

/-- What a response to the query from `since` is read as. -/
def pageOf (since : Cursor) (response : ChangedAgreementsResponse) : List AgreementStateSnapshot :=
  match readPage since response with
  | .ok result => result.snapshots
  | .error _ => []

/-- What a dialogue of the listener tells: the page it read last, and the changes it queued checks
for.  A check is for the change its agreement has on the page. -/
structure Heard where
  page : List AgreementStateSnapshot := []
  checks : List Change := []
  deriving DecidableEq, Repr

def Heard.hear (k : Heard) : Exchange Op Res → Heard
  | ⟨.getChanged since _, .ok response⟩ => { k with page := pageOf since response }
  | ⟨.push (.cancelRejectedAgreementOnChain id _), .ok _⟩ =>
    { k with checks := k.checks ++
        ((k.page.find? fun x => x.agreementId = id).map changeOf).toList }
  | _ => k

def heard (k : Heard) (talk : List (Exchange Op Res)) : Heard := talk.foldl Heard.hear k

/-- The changes that checks were queued for in a dialogue. -/
def checksQueued (talk : List (Exchange Op Res)) : List Change := (heard {} talk).checks

/-- The subgraph gave only rows past the cursor it was asked for. -/
def givesPast : Exchange Op Res → Bool
  | ⟨.getChanged since _, .ok response⟩ =>
    (response.indexingAgreements.filterMap parseSnapshot).all fun x => since < x.cursor
  | _ => true

def OnlyPast (talk : List (Exchange Op Res)) : Prop := ∀ e ∈ talk, givesPast e = true

section Quiet

variable {config : Config} {k : Heard} {α : Type} {p : Act α} {talk talk' : List (Exchange Op Res)}
  {out : Option α}

theorem heard_append : heard k (talk ++ talk') = heard (heard k talk) talk' := List.foldl_append

/-- Whether an operation reads a page or queues a check. -/
def readsOrChecks : Op → Bool
  | .getChanged .. | .push (.cancelRejectedAgreementOnChain ..) => true
  | _ => false

/-- A program that does neither. -/
def Quiet {α : Type} (p : Act α) : Prop := p.OnlyOps fun o => readsOrChecks o = false

theorem hear_quiet {e : Exchange Op Res} (h : readsOrChecks e.1 = false) : k.hear e = k := by
  obtain ⟨o, r⟩ := e
  cases o with
  | getChanged _ _ => cases h
  | push job =>
    cases job with
    | cancelRejectedAgreementOnChain _ _ => cases h
    | _ => rfl
  | _ => rfl

theorem Quiet.heard (hp : Quiet p) (h : p.Talks talk out) : heard k talk = k := by
  have hAll := h.onlyOps hp
  clear h
  induction talk with
  | nil => rfl
  | cons e talk ih =>
    have hFirst : k.hear e = k := hear_quiet (hAll e List.mem_cons_self)
    unfold Listener.heard at ih ⊢
    rw [List.foldl_cons, hFirst]
    exact ih fun e' he' => hAll e' (List.mem_cons_of_mem _ he')

theorem quiet_listAgreements (q : AgreementQuery) : Quiet (Registry.listAgreements q) := by
  refine .ask rfl fun r => ?_
  cases r <;> exact .pure _

theorem quiet_of_cancels {agreement : IndexingAgreement} (hp : Cancels agreement p) : Quiet p := by
  refine Prog.OnlyOps.mono (fun o ho => ?_) hp
  cases o <;> first | rfl | cases ho

theorem quiet_recordAcceptOfCancelling {x : AgreementStateSnapshot} {a : IndexingAgreement} :
    Quiet (recordAcceptOfCancelling x a) := by
  unfold recordAcceptOfCancelling
  split
  · exact .pure _
  · refine .ask rfl fun r => ?_
    split <;> exact .pure _

theorem quiet_decideReconciliation {x : AgreementStateSnapshot} {a : IndexingAgreement} :
    Quiet (decideReconciliation x a) := by
  have hRecord : Quiet (recordAcceptAndCancelFromChain x a) := by
    unfold recordAcceptAndCancelFromChain
    split
    · exact .pure _
    · refine .ask rfl fun r => ?_
      split <;> exact .pure _
  unfold decideReconciliation
  split
  · exact .pure _
  · split
    · refine .bind hRecord fun r => ?_
      split <;> exact .pure _
    · exact .pure _

theorem quiet_applyPage {work : PageWork} : Quiet (applyPage work) := by
  unfold applyPage
  dsimp only
  split
  · exact .pure _
  · refine .ask rfl fun r => ?_
    split <;> exact .pure _

theorem quiet_startReplacedCancel {old : IndexingAgreementId} :
    Quiet (startReplacedCancel config old) := by
  have hById : Quiet (Registry.getIndexingAgreementById old) := by
    refine .ask rfl fun r => ?_
    cases r <;> exact .pure _
  refine .bind hById fun r => ?_
  split
  · exact .pure _
  · exact .pure _
  · split
    · refine .ask rfl fun r => ?_
      split
      · exact .pure _
      · exact .bind (quiet_of_cancels cancels_startCancelSeenLive) fun _ => .pure _
      · exact .pure _
    · exact .bind (quiet_of_cancels cancels_startCancel) fun _ => .pure _

theorem quiet_executePendingCancellations {new : IndexingAgreementId} :
    Quiet (executePendingCancellations config new) := by
  have hEach : ∀ olds, Quiet (cancelReplaced config new olds) := by
    intro olds
    induction olds with
    | nil => exact .pure _
    | cons old rest ih =>
      refine .bind quiet_startReplacedCancel fun r => ?_
      split
      · exact .pure _
      · refine .ask rfl fun r => ?_
        split
        · exact .pure _
        · exact ih
      · refine .bind ih fun r => ?_
        split <;> exact .pure _
  refine .ask rfl fun r => ?_
  split
  · exact .pure _
  · refine .bind (hEach _) fun r => ?_
    split <;> exact .pure _

theorem quiet_finalizeEach {outcomes : Outcomes} (preps : List PreparedReconciliation) :
    Quiet (finalizeEach config outcomes preps) := by
  induction preps with
  | nil => exact .pure _
  | cons prep rest ih =>
    have hOne : ∀ outcome, Quiet (finalizeReconciliation config prep outcome) := by
      intro outcome
      unfold finalizeReconciliation
      split
      · exact quiet_executePendingCancellations
      · exact .pure _
    unfold finalizeEach
    split
    · exact ih
    · refine .bind (hOne _) fun r => ?_
      split <;> exact .bind ih fun _ => .pure _

theorem quiet_commitPage {memory : ListenerMemory} {unapplied : List IndexingAgreementId}
    {cursor : Cursor} {newTs : Option Nat} :
    Quiet (commitPage config memory unapplied cursor newTs) := by
  have hRatchet : Quiet (ratchetTimestamp config newTs memory.lastPersistedTimestamp) := by
    unfold ratchetTimestamp
    split
    · exact .pure _
    · split
      · exact .pure _
      · exact .ask rfl fun _ => .pure _
  have hAlert : ∀ skip held, Quiet (raiseHoldAlert memory.cursor unapplied skip held) := by
    intro skip held
    unfold raiseHoldAlert
    split
    · exact .perform rfl
    · split
      · exact .perform rfl
      · exact .pure _
  have hPersist : ∀ changed cursor ratchet persisted,
      Quiet (persistState changed cursor ratchet persisted) := by
    intro changed cursor ratchet persisted
    unfold persistState
    split
    · refine .ask rfl fun r => ?_
      split <;> exact .pure _
    · exact .pure _
  exact .ask rfl fun now => .bind hRatchet fun ratchet => .bind (hAlert _ _) fun _ =>
    .bind (hPersist _ _ _ _) fun _ => .pure _

end Quiet

/-- What a part of a drain adds to the checks: changes of the page that were not remembered, each
once, which then are. -/
structure Queues (k : Heard) (queued : List Change) (k' : Heard) (queued' : List Change) :
    Prop where
  page : k'.page = k.page
  news : ∃ new : List Change, k'.checks = k.checks ++ new ∧ queued' = new.reverse ++ queued ∧
    new.Nodup ∧ (∀ c ∈ new, c ∉ queued) ∧ ∀ c ∈ new, ∃ x ∈ k.page, c = changeOf x

namespace Queues

variable {k k1 k2 : Heard} {queued queued1 queued2 : List Change}

theorem refl (k : Heard) (queued : List Change) : Queues k queued k queued where
  page := rfl
  news := ⟨[], (List.append_nil _).symm, rfl, List.nodup_nil,
    fun _ h => absurd h List.not_mem_nil, fun _ h => absurd h List.not_mem_nil⟩

theorem trans (h1 : Queues k queued k1 queued1) (h2 : Queues k1 queued1 k2 queued2) :
    Queues k queued k2 queued2 := by
  obtain ⟨new1, hChecks1, hQueued1, hNodup1, hNew1, hRows1⟩ := h1.news
  obtain ⟨new2, hChecks2, hQueued2, hNodup2, hNew2, hRows2⟩ := h2.news
  refine ⟨h2.page.trans h1.page, new1 ++ new2, ?_, ?_, ?_, ?_, ?_⟩
  · rw [hChecks2, hChecks1, List.append_assoc]
  · rw [hQueued2, hQueued1, List.reverse_append, List.append_assoc]
  · refine List.nodup_append'.mpr ⟨hNodup1, hNodup2, fun c hOld hLater => ?_⟩
    apply hNew2 c hLater
    rw [hQueued1]
    exact List.mem_append_left _ (List.mem_reverse.mpr hOld)
  · intro c hMem
    rcases List.mem_append.mp hMem with hOld | hLater
    · exact hNew1 c hOld
    · intro hThere
      apply hNew2 c hLater
      rw [hQueued1]
      exact List.mem_append_right _ hThere
  · intro c hMem
    rcases List.mem_append.mp hMem with hOld | hLater
    · exact hRows1 c hOld
    · rw [← h1.page]
      exact hRows2 c hLater

end Queues

section Page

variable {config : Config} {k : Heard} {talk : List (Exchange Op Res)} {x : AgreementStateSnapshot}
  {queued queued' : List Change}

theorem talks_queueLiveCheck {r : Except Unit (List Change)}
    (hFirst : k.page.find? (fun y => y.agreementId = x.agreementId) = some x)
    (h : (queueLiveCheck x queued).Talks talk (some r)) :
    (∀ queued', r = .ok queued' → Queues k queued (heard k talk) queued') ∧
      ∀ e, r = .error e → heard k talk = k := by
  unfold queueLiveCheck at h
  dsimp only at h
  split at h
  · obtain ⟨rfl, rfl⟩ := talks_pure h
    refine ⟨fun queued' hEq => ?_, fun e hEq => by cases hEq⟩
    cases hEq
    exact Queues.refl k queued
  · rename_i hNew
    obtain ⟨r1, talk1, talk2, h1, h2, rfl⟩ := talks_bind h
    obtain rfl := talks_perform h1
    cases r1 with
    | error e1 =>
      obtain ⟨rfl, rfl⟩ := talks_pure h2
      refine ⟨fun queued' hEq => ?_, fun _ _ => rfl⟩
      cases hEq
    | ok _ =>
      obtain ⟨rfl, rfl⟩ := talks_pure h2
      refine ⟨fun queued' hEq => ?_, fun e hEq => by cases hEq⟩
      cases hEq
      have hOn : x ∈ k.page := List.mem_of_find?_eq_some hFirst
      refine ⟨rfl, [changeOf x], ?_, rfl, List.nodup_singleton _, ?_, ?_⟩
      · change k.checks ++ ((k.page.find? _).map changeOf).toList = _
        rw [hFirst]
        rfl
      · intro c hMem
        obtain rfl := List.mem_singleton.mp hMem
        exact hNew
      · intro c hMem
        exact ⟨x, hOn, List.mem_singleton.mp hMem⟩

theorem talks_prepareReconciliation {agreement : Option IndexingAgreement}
    {prep : Except Unit (Option PreparedReconciliation)}
    (hFirst : agreement.isSome = true →
      k.page.find? (fun y => y.agreementId = x.agreementId) = some x)
    (h : (prepareReconciliation x agreement queued).Talks talk (some (prep, queued'))) :
    Queues k queued (heard k talk) queued' := by
  cases agreement with
  | none =>
    obtain ⟨hEq, rfl⟩ := talks_pure h
    cases hEq
    exact Queues.refl k queued
  | some a =>
    obtain ⟨r1, talk1, talk2, h1, h2, rfl⟩ := talks_bind h
    have hCheck : (∀ queued', r1 = .ok queued' → Queues k queued (heard k talk1) queued') ∧
        ∀ e, r1 = .error e → heard k talk1 = k := by
      unfold checkEndedButAccepted at h1
      split at h1
      · exact talks_queueLiveCheck (hFirst rfl) h1
      · obtain ⟨rfl, rfl⟩ := talks_pure h1
        refine ⟨fun queued' hEq => ?_, fun e hEq => by cases hEq⟩
        cases hEq
        exact Queues.refl k queued
    rw [heard_append]
    cases r1 with
    | error e =>
      obtain ⟨hEq, rfl⟩ := talks_pure h2
      cases hEq
      rw [hCheck.2 e rfl]
      exact Queues.refl k queued
    | ok queued1 =>
      -- What follows neither reads a page nor queues a check.
      have hRest : ∃ prep', (prep', queued1) = (prep, queued') ∧
          heard (heard k talk1) talk2 = heard k talk1 := by
        obtain ⟨r2, talk3, talk4, h3, h4, rfl⟩ := talks_bind h2
        rw [heard_append, quiet_recordAcceptOfCancelling.heard h3]
        cases r2 with
        | error e =>
          obtain ⟨hEq, rfl⟩ := talks_pure h4
          exact ⟨_, hEq.symm, rfl⟩
        | ok _ =>
          obtain ⟨r3, talk5, talk6, h5, h6, rfl⟩ := talks_bind h4
          obtain ⟨hEq, rfl⟩ := talks_pure h6
          rw [List.append_nil, quiet_decideReconciliation.heard h5]
          exact ⟨r3, hEq.symm, rfl⟩
      obtain ⟨prep', hEq, hSame⟩ := hRest
      cases hEq
      rw [hSame]
      exact hCheck.1 _ rfl

theorem liveChecks_add {work : PageWork} {id : IndexingAgreementId}
    {prep : Except Unit (Option PreparedReconciliation)} :
    (work.add id prep queued).liveChecks = queued := by
  match prep with
  | .ok (some _) => rfl
  | .ok none => rfl
  | .error _ => rfl

/-- The snapshots of a page one after another.  An agreement is used once, so a snapshot that finds
its agreement is the first of it on the page. -/
theorem talks_prepareEach {rest : List AgreementStateSnapshot} (done : List AgreementStateSnapshot)
    {agreements : List IndexingAgreement} {work work' : PageWork} {stopped : Bool}
    (hPage : k.page = done ++ rest)
    (hDone : ∀ a ∈ agreements, ∀ y ∈ done, y.agreementId ≠ a.id)
    (h : (prepareEach rest agreements work).Talks talk (some (stopped, work'))) :
    Queues k work.liveChecks (heard k talk) work'.liveChecks := by
  induction rest generalizing k talk done agreements work with
  | nil =>
    obtain ⟨hEq, rfl⟩ := talks_pure h
    cases hEq
    exact Queues.refl k _
  | cons x rest ih =>
    obtain ⟨stop, talk1, talk2, h1, h2, rfl⟩ := talks_bind h
    obtain rfl := talks_perform h1
    rw [heard_append]
    change Queues k work.liveChecks (heard k talk2) work'.liveChecks
    split at h2
    · obtain ⟨hEq, rfl⟩ := talks_pure h2
      cases hEq
      exact Queues.refl k _
    · obtain ⟨⟨prep, queued1⟩, talk3, talk4, h3, h4, rfl⟩ := talks_bind h2
      have hFirst : (agreements.find? fun a => a.id = x.agreementId).isSome = true →
          k.page.find? (fun y => y.agreementId = x.agreementId) = some x := by
        intro hFound
        obtain ⟨a, ha⟩ := Option.isSome_iff_exists.mp hFound
        have hMem := List.mem_of_find?_eq_some ha
        have hId : a.id = x.agreementId := by simpa using List.find?_some ha
        have hNone : done.find? (fun y => y.agreementId = x.agreementId) = none := by
          refine List.find?_eq_none.mpr fun y hy hEq => hDone a hMem y hy ?_
          rw [hId]
          exact of_decide_eq_true hEq
        rw [hPage, List.find?_append, hNone, Option.none_or]
        simp only [List.find?_cons, decide_true]
      have hOne := talks_prepareReconciliation hFirst h3
      rw [heard_append]
      have hPage' : (heard k talk3).page = (done ++ [x]) ++ rest := by
        rw [hOne.page, hPage, List.append_assoc]
        rfl
      refine hOne.trans ?_
      have hRest := ih (done ++ [x]) hPage' (fun a ha y hy => ?_) h4
      · rw [liveChecks_add] at hRest
        exact hRest
      · obtain ⟨hMem, hKept⟩ := List.mem_filter.mp ha
        rcases List.mem_append.mp hy with hOld | hLast
        · exact hDone a hMem y hOld
        · rw [List.mem_singleton.mp hLast]
          exact fun hEq => of_decide_eq_true hKept hEq.symm

theorem talks_preparePage {snapshots : List AgreementStateSnapshot} {stopped : Bool}
    {work : PageWork} (hPage : k.page = snapshots)
    (h : (preparePage snapshots queued).Talks talk (some (stopped, work))) :
    Queues k queued (heard k talk) work.liveChecks := by
  obtain ⟨r, talk1, talk2, h1, h2, rfl⟩ := talks_bind h
  rw [heard_append, (quiet_listAgreements _).heard h1]
  cases r with
  | ok agreements =>
    exact talks_prepareEach [] hPage (fun _ _ _ h => absurd h List.not_mem_nil) h2
  | error e =>
    exact talks_prepareEach [] hPage (fun _ _ _ h => absurd h List.not_mem_nil) h2

theorem liveChecks_applyPage {work : PageWork} :
    (applyPage work).Yields fun r => r.1.liveChecks = work.liveChecks := by
  unfold applyPage
  dsimp only
  split
  · exact rfl
  · intro r
    cases r <;> exact rfl

theorem talks_reconcilePage {since : Cursor} {snapshots : List AgreementStateSnapshot}
    {report : PageReport} (hPage : k.page = snapshots)
    (h : (reconcilePage config since snapshots queued).Talks talk (some report)) :
    Queues k queued (heard k talk) report.liveChecks := by
  obtain ⟨⟨stopped, work⟩, talk1, talk2, h1, h2, rfl⟩ := talks_bind h
  have hPrepared := talks_preparePage hPage h1
  rw [heard_append]
  dsimp only at h2
  split at h2
  · obtain ⟨rfl, rfl⟩ := talks_pure h2
    exact hPrepared
  · obtain ⟨⟨work1, outcomes⟩, talk3, talk4, h3, h4, rfl⟩ := talks_bind h2
    obtain ⟨u, talk5, talk6, h5, h6, rfl⟩ := talks_bind h4
    obtain ⟨counts, talk7, talk8, h7, h8, rfl⟩ := talks_bind h6
    obtain ⟨rfl, rfl⟩ := talks_pure h8
    obtain rfl := talks_perform h5
    have hSame : work1.liveChecks = work.liveChecks := h3.yields liveChecks_applyPage
    rw [heard_append, quiet_applyPage.heard h3, heard_append, List.append_nil]
    change Queues k queued (heard (heard k talk1) talk7) work1.liveChecks
    rw [(quiet_finalizeEach _).heard h7, hSame]
    exact hPrepared

end Page

section Drain

variable {config : Config} {k : Heard} {talk : List (Exchange Op Res)} {since : Cursor}
  {pinned : Option Nat} {memory memory' : ListenerMemory}

theorem OnlyPast.of_append_left {talk1 talk2 : List (Exchange Op Res)}
    (h : OnlyPast (talk1 ++ talk2)) : OnlyPast talk1 :=
  fun e he => h e (List.mem_append_left _ he)

theorem OnlyPast.of_append_right {talk1 talk2 : List (Exchange Op Res)}
    (h : OnlyPast (talk1 ++ talk2)) : OnlyPast talk2 :=
  fun e he => h e (List.mem_append_right _ he)

theorem quiet_checkSkew {ts : Option Nat} : Quiet (checkSkew config ts) := by
  cases ts with
  | none => exact .pure _
  | some ts => exact .ask rfl fun _ => .pure _

theorem talks_getChangedAgreements {r : Except ChainEventError ChangedAgreementsResult}
    (h : (getChangedAgreements config since pinned).Talks talk (some r)) (hPast : OnlyPast talk) :
    (heard k talk).checks = k.checks ∧
      ∀ result, r = .ok result → (heard k talk).page = result.snapshots ∧
        ∀ x ∈ result.snapshots, since.block ≤ x.lastStateChangeBlock := by
  obtain ⟨r1, talk1, talk2, h1, h2, rfl⟩ := talks_bind h
  obtain rfl := talks_perform h1
  rw [heard_append]
  cases r1 with
  | error err =>
    obtain ⟨rfl, rfl⟩ := talks_pure h2
    exact ⟨rfl, fun result hEq => by cases hEq⟩
  | ok response =>
    have hRows : ∀ x ∈ response.indexingAgreements.filterMap parseSnapshot, since < x.cursor := by
      intro x hx
      have hAll := hPast _ (List.mem_append_left _ (List.mem_singleton_self _))
      exact of_decide_eq_true (List.all_eq_true.mp hAll x hx)
    have hHeard : heard k [⟨.getChanged since pinned, .ok response⟩] =
        { k with page := pageOf since response } := rfl
    rw [hHeard]
    dsimp only at h2
    split at h2
    · obtain ⟨rfl, rfl⟩ := talks_pure h2
      exact ⟨rfl, fun result hEq => by cases hEq⟩
    · obtain ⟨r2, talk3, talk4, h3, h4, rfl⟩ := talks_bind h2
      rw [heard_append, quiet_checkSkew.heard h3]
      cases r2 with
      | error err =>
        obtain ⟨rfl, rfl⟩ := talks_pure h4
        exact ⟨rfl, fun result hEq => by cases hEq⟩
      | ok _ =>
        obtain ⟨hRead, rfl⟩ := talks_pure h4
        refine ⟨rfl, fun result hEq => ?_⟩
        rw [hEq] at hRead
        have hPage : pageOf since response = result.snapshots := by
          unfold pageOf
          rw [← hRead]
        refine ⟨hPage, fun x hx => ?_⟩
        exact Cursor.block_le_of_lt (hRows x ((sublist_of_readPage hRead.symm).mem hx))

theorem commitPage_yields {unapplied : List IndexingAgreementId} {newCursor : Cursor}
    {newTs : Option Nat} :
    (commitPage config memory unapplied newCursor newTs).Yields fun r =>
      r.1.liveChecks = memory.liveChecks ∧
      (r.2 = true → r.1.cursor = newCursor ∧ memory.cursor < newCursor) ∧
      (r.2 = false → r.1.cursor = memory.cursor) := by
  refine Yields.after _ fun now => Yields.after _ fun ratchet => Yields.after _ fun _ =>
    Yields.after _ fun persisted => ⟨rfl, fun hMoves => ?_, fun hStays => ?_⟩
  · exact ⟨if_pos hMoves, of_decide_eq_true (Bool.and_eq_true_iff.mp hMoves).2⟩
  · exact if_neg (Bool.eq_false_iff.mp hStays)

/-- What the pages of a drain from `since` on add to the checks.  By induction on the pages: each
one is read from where the one before it moved the cursor to. -/
theorem talks_drainPages {remaining : Nat} {outcome : DrainOutcome} {r : Except Unit DrainOutcome}
    (h : (drainPages config remaining since pinned memory outcome).Talks talk (some (memory', r)))
    (hPast : OnlyPast talk) (hSince : since ≤ memory.cursor) :
    memory.cursor ≤ memory'.cursor ∧
      ∃ new : List Change, (heard k talk).checks = k.checks ++ new ∧
        memory'.liveChecks = new.reverse ++ memory.liveChecks ∧ new.Nodup ∧
        (∀ c ∈ new, c ∉ memory.liveChecks) ∧ ∀ c ∈ new, since.block ≤ c.2 := by
  induction remaining generalizing k talk since pinned memory outcome with
  | zero =>
    obtain ⟨hEq, rfl⟩ := talks_pure h
    cases hEq
    exact ⟨le_refl _, [], (List.append_nil _).symm, rfl, List.nodup_nil,
      fun _ h => absurd h List.not_mem_nil, fun _ h => absurd h List.not_mem_nil⟩
  | succ remaining ih =>
    obtain ⟨r1, talk1, talk2, h1, h2, rfl⟩ := talks_bind h
    obtain ⟨hChecks, hPage⟩ := talks_getChangedAgreements (k := k) h1 hPast.of_append_left
    rw [heard_append]
    cases r1 with
    | error err =>
      obtain ⟨hEq, rfl⟩ := talks_pure h2
      cases hEq
      exact ⟨le_refl _, [], hChecks.trans (List.append_nil _).symm, rfl, List.nodup_nil,
        fun _ h => absurd h List.not_mem_nil, fun _ h => absurd h List.not_mem_nil⟩
    | ok result =>
      obtain ⟨hShown, hRows⟩ := hPage result rfl
      -- The memory that the page is reconciled with has the same cursor and checks.
      obtain ⟨memory1, hMemory1, hCursor1, hLive1⟩ : ∃ memory1 : ListenerMemory,
          memory1 = (if pinned.isNone then
            noteHead { memory with consecutiveFailures := 0 } result.latestBlock
          else { memory with consecutiveFailures := 0 }) ∧
          memory1.cursor = memory.cursor ∧ memory1.liveChecks = memory.liveChecks := by
        refine ⟨_, rfl, ?_, ?_⟩ <;> split <;> rfl
      dsimp only at h2
      rw [← hMemory1] at h2
      obtain ⟨report, talk3, talk4, h3, h4, rfl⟩ := talks_bind h2
      have hQueues := talks_reconcilePage hShown h3
      obtain ⟨new1, hChecks1, hQueued1, hNodup1, hNew1, hOn1⟩ := hQueues.news
      have hBlocks1 : ∀ c ∈ new1, since.block ≤ c.2 := by
        intro c hMem
        obtain ⟨x, hx, rfl⟩ := hOn1 c hMem
        rw [hShown] at hx
        exact hRows x hx
      rw [hLive1] at hQueued1 hNew1
      rw [heard_append]
      rw [hChecks] at hChecks1
      split at h4
      · obtain ⟨hEq, rfl⟩ := talks_pure h4
        cases hEq
        exact ⟨le_of_eq hCursor1.symm, new1, hChecks1, hQueued1, hNodup1, hNew1, hBlocks1⟩
      · obtain ⟨⟨memory2, advanced⟩, talk5, talk6, h5, h6, rfl⟩ := talks_bind h4
        obtain ⟨hLive2, hMoves, hStays⟩ := h5.yields commitPage_yields
        rw [heard_append, quiet_commitPage.heard h5]
        dsimp only at h6 hLive2 hMoves hStays
        rw [hCursor1] at hMoves hStays
        rw [hQueued1] at hLive2
        have hCursor2 : memory.cursor ≤ memory2.cursor := by
          cases advanced with
          | true => exact le_of_lt ((hMoves rfl).1 ▸ (hMoves rfl).2)
          | false => exact le_of_eq (hStays rfl).symm
        split at h6
        · obtain ⟨hEq, rfl⟩ := talks_pure h6
          cases hEq
          exact ⟨hCursor2, new1, hChecks1, hLive2, hNodup1, hNew1, hBlocks1⟩
        · rename_i hGoesOn
          have hAdvanced : advanced = true := by
            cases advanced with
            | true => rfl
            | false => simp at hGoesOn
          obtain ⟨hAt, hLt⟩ := hMoves hAdvanced
          have hPast' : OnlyPast talk6 :=
            hPast.of_append_right.of_append_right.of_append_right
          obtain ⟨hCursor3, new2, hChecks2, hQueued2, hNodup2, hNew2, hBlocks2⟩ :=
            ih (k := heard (heard k talk1) talk3) h6 hPast' (le_of_eq hAt.symm)
          have hFurther : since.block ≤ result.cursor.block :=
            Cursor.block_le_of_le (le_trans hSince (le_of_lt hLt))
          rw [hLive2] at hQueued2 hNew2
          refine ⟨le_trans hCursor2 hCursor3, new1 ++ new2, ?_, ?_, ?_, ?_, ?_⟩
          · rw [hChecks2, hChecks1, List.append_assoc]
          · rw [hQueued2, List.reverse_append, List.append_assoc]
          · refine List.nodup_append'.mpr ⟨hNodup1, hNodup2, fun c hOld hLater => ?_⟩
            exact hNew2 c hLater (List.mem_append_left _ (List.mem_reverse.mpr hOld))
          · intro c hMem
            rcases List.mem_append.mp hMem with hOld | hLater
            · exact hNew1 c hOld
            · exact fun hThere => hNew2 c hLater (List.mem_append_right _ hThere)
          · intro c hMem
            rcases List.mem_append.mp hMem with hOld | hLater
            · exact hBlocks1 c hOld
            · exact Nat.le_trans hFurther (hBlocks2 c hLater)

end Drain

section Runs

variable {config : Config} {talk : List (Exchange Op Res)} {memory memory' : ListenerMemory}
  {drains : List (ListenerMemory × List (Exchange Op Res))}

def drainStart (config : Config) (memory : ListenerMemory) : Nat :=
  (effectiveCursor config.reorgBufferBlocks memory.cursor).block

/-- The changes that are remembered in a drain, by what it has queued until then. -/
def remembered (config : Config) (memory : ListenerMemory) (talk : List (Exchange Op Res)) :
    List Change :=
  (checksQueued talk).reverse ++ forgetBefore (drainStart config memory) memory.liveChecks

/-- The drains of a process so far, each with the memory it began with and its dialogue.  What the
listener does between two drains leaves the cursor and the remembered changes alone. -/
inductive Polled (config : Config) :
    List (ListenerMemory × List (Exchange Op Res)) → ListenerMemory → Prop
  | start {memory : ListenerMemory} : memory.liveChecks = [] → Polled config [] memory
  | drain {drains : List (ListenerMemory × List (Exchange Op Res))}
      {memory memory' : ListenerMemory} {talk : List (Exchange Op Res)}
      {r : Except Unit DrainOutcome} : Polled config drains memory →
      (drainOnce config memory).Talks talk (some (memory', r)) →
      Polled config (drains ++ [(memory, talk)]) memory'
  | between {drains : List (ListenerMemory × List (Exchange Op Res))}
      {memory memory' : ListenerMemory} : Polled config drains memory →
      memory'.cursor = memory.cursor → memory'.liveChecks = memory.liveChecks →
      Polled config drains memory'

def everQueued (drains : List (ListenerMemory × List (Exchange Op Res))) : List Change :=
  drains.flatMap fun drain => checksQueued drain.2

theorem everQueued_append : everQueued (drains ++ [(memory, talk)]) =
    everQueued drains ++ checksQueued talk := by
  simp [everQueued]

theorem drainStart_eq (hAbove : config.reorgBufferBlocks < memory.cursor.block) :
    drainStart config memory = memory.cursor.block - config.reorgBufferBlocks := by
  unfold drainStart effectiveCursor
  split
  · rfl
  · omega

theorem mem_forgetBefore {block : Nat} {queued : List Change} {c : Change} :
    c ∈ forgetBefore block queued ↔ c ∈ queued ∧ block ≤ c.2 := by
  unfold forgetBefore
  rw [List.mem_filter, decide_eq_true_eq]

/-- One drain: the cursor does not move back, and the checks are of changes that are not remembered
and that the drain reads. -/
theorem talks_drainOnce {r : Except Unit DrainOutcome}
    (h : (drainOnce config memory).Talks talk (some (memory', r))) (hPast : OnlyPast talk) :
    memory.cursor ≤ memory'.cursor ∧ memory'.liveChecks = remembered config memory talk ∧
      (checksQueued talk).Nodup ∧
      ∀ c ∈ checksQueued talk, c ∉ memory.liveChecks ∧ drainStart config memory ≤ c.2 := by
  obtain ⟨hCursor, new, hChecks, hQueued, hNodup, hNew, hBlocks⟩ :=
    talks_drainPages (k := {}) h hPast effectiveCursor_le
  have hNew' : checksQueued talk = new := hChecks
  rw [hNew']
  refine ⟨hCursor, ?_, hNodup, fun c hMem => ⟨fun hThere => hNew c hMem ?_, hBlocks c hMem⟩⟩
  · rw [hQueued]
    unfold remembered
    rw [hNew']
    rfl
  · exact mem_forgetBefore.mpr ⟨hThere, hBlocks c hMem⟩

/-- What holds of the checks between the drains: a change that is no longer remembered is before
what later drains read. -/
structure Remembers (config : Config) (drains : List (ListenerMemory × List (Exchange Op Res)))
    (memory : ListenerMemory) : Prop where
  once : (everQueued drains).Nodup
  kept : ∀ c ∈ everQueued drains,
    c ∈ memory.liveChecks ∨ c.2 < memory.cursor.block - config.reorgBufferBlocks

theorem Remembers.drain {r : Except Unit DrainOutcome} (h : Remembers config drains memory)
    (hTalks : (drainOnce config memory).Talks talk (some (memory', r))) (hPast : OnlyPast talk)
    (hAbove : config.reorgBufferBlocks < memory.cursor.block) :
    Remembers config (drains ++ [(memory, talk)]) memory' := by
  obtain ⟨hCursor, hLive, hNodup, hNew⟩ := talks_drainOnce hTalks hPast
  have hStart := drainStart_eq hAbove
  have hBlock := Cursor.block_le_of_le hCursor
  constructor
  · rw [everQueued_append]
    refine List.nodup_append'.mpr ⟨h.once, hNodup, fun c hOld hLater => ?_⟩
    obtain ⟨hUnknown, hFrom⟩ := hNew c hLater
    rcases h.kept c hOld with hThere | hBefore
    · exact hUnknown hThere
    · omega
  · intro c hMem
    rw [everQueued_append, List.mem_append] at hMem
    rw [hLive]
    unfold remembered
    rcases hMem with hOld | hLater
    · by_cases hFrom : drainStart config memory ≤ c.2
      · rcases h.kept c hOld with hThere | hBefore
        · exact .inl (List.mem_append_right _ (mem_forgetBefore.mpr ⟨hThere, hFrom⟩))
        · omega
      · exact .inr (by omega)
    · exact .inl (List.mem_append_left _ (List.mem_reverse.mpr hLater))

theorem remembers_of_polled (h : Polled config drains memory)
    (hPast : ∀ drain ∈ drains, OnlyPast drain.2)
    (hAbove : ∀ drain ∈ drains, config.reorgBufferBlocks < drain.1.cursor.block) :
    Remembers config drains memory := by
  induction h with
  | start _ => exact ⟨List.nodup_nil, fun c hMem => absurd hMem List.not_mem_nil⟩
  | @drain drains memory memory' talk r _ hTalks ih =>
    have hLast : (memory, talk) ∈ drains ++ [(memory, talk)] :=
      List.mem_append_right _ (List.mem_singleton_self _)
    have hBefore := ih (fun d hd => hPast d (List.mem_append_left _ hd))
      fun d hd => hAbove d (List.mem_append_left _ hd)
    exact hBefore.drain hTalks (hPast _ hLast) (hAbove _ hLast)
  | between _ hCursor hLive ih =>
    obtain ⟨hOnce, hKept⟩ := ih hPast hAbove
    refine ⟨hOnce, fun c hMem => ?_⟩
    rw [hCursor, hLive]
    exact hKept c hMem

def brokenOff : (o : Op) → Res o
  | .select _ | .update .. | .applyReconciliation .. | .applyReconciliationBatch _ | .register ..
  | .deletePendingByNew _ | .deletePending .. | .updateListenerState .. | .pendingByNew _
  | .executablePending _ | .getRequest _ | .setShortfallActive .. | .getListenerState =>
    Except.error RegistryError.backend
  | .offerViaManager .. | .cancelViaManager .. | .agreementOnChain _ | .latestBlockTimestamp =>
    Except.error ChainClientError.other
  | .getChanged .. => Except.error (ChainEventError.transient "")
  | .emit _ | .push _ | .selectionContext => Except.error ()
  | .now => Nat.zero
  | .stopRequested | .stale _ => false
  | .sendProposal _ => ProposalReply.failed
  | .selectIndexers .. => Except.error SelectionError.iisaRejected
  | .newAgreementId => (0, [])
  | .iterate _ => []
  | .note _ | .remember _ => ()

theorem hear_brokenOff {k : Heard} (o : Op) : k.hear ⟨o, brokenOff o⟩ = k := by
  cases o with
  | push job =>
    cases job with
    | _ => rfl
  | _ => rfl

/-- A drain that breaks off could have gone on to its end without queueing anything further. -/
theorem exists_talks_drainOnce {out : Option (ListenerMemory × Except Unit DrainOutcome)}
    (h : (drainOnce config memory).Talks talk out) (hPast : OnlyPast talk) :
    ∃ talk' memory' r, (drainOnce config memory).Talks talk' (some (memory', r)) ∧
      OnlyPast talk' ∧ checksQueued talk' = checksQueued talk := by
  obtain ⟨rest, ⟨memory', r⟩, hTalks, hRest⟩ :=
    h.goes_on (fun o r => r = brokenOff o) fun o => ⟨brokenOff o, rfl⟩
  refine ⟨talk ++ rest, memory', r, hTalks, ?_, ?_⟩
  · intro e he
    rcases List.mem_append.mp he with hOld | hLater
    · exact hPast e hOld
    · obtain ⟨o, r⟩ := e
      obtain rfl : r = brokenOff o := hRest _ hLater
      cases o <;> rfl
  · have hSame : ∀ k : Heard, heard k rest = k := by
      intro k
      clear hTalks
      induction rest with
      | nil => rfl
      | cons e rest ih =>
        have hFirst : e = ⟨e.1, brokenOff e.1⟩ := by
          rw [← hRest e List.mem_cons_self]
        unfold heard at ih ⊢
        rw [List.foldl_cons, hFirst, hear_brokenOff]
        exact ih fun e' he' => hRest e' (List.mem_cons_of_mem _ he')
    unfold checksQueued
    rw [heard_append, hSame]

/-- At every point of every drain of a process, where the subgraph gives only rows past the cursors
it is asked for and the cursor's block is above the reorg buffer: a check was queued at most once
for a change, and what is remembered are changes from the block on that the drain reads from. -/
theorem one_check_per_change {out : Option (ListenerMemory × Except Unit DrainOutcome)}
    (hPolled : Polled config drains memory) (hTalks : (drainOnce config memory).Talks talk out)
    (hPast : ∀ drain ∈ drains ++ [(memory, talk)], OnlyPast drain.2)
    (hAbove : ∀ drain ∈ drains ++ [(memory, talk)],
      config.reorgBufferBlocks < drain.1.cursor.block) :
    (everQueued (drains ++ [(memory, talk)])).Nodup ∧
      (∀ c ∈ remembered config memory talk, drainStart config memory ≤ c.2) ∧
      ∀ memory' r, out = some (memory', r) →
        memory'.liveChecks = remembered config memory talk := by
  have hLast : (memory, talk) ∈ drains ++ [(memory, talk)] :=
    List.mem_append_right _ (List.mem_singleton_self _)
  have hBefore := remembers_of_polled hPolled (fun d hd => hPast d (List.mem_append_left _ hd))
    fun d hd => hAbove d (List.mem_append_left _ hd)
  obtain ⟨talk', memory', r, hTalks', hPast', hSame⟩ :=
    exists_talks_drainOnce hTalks (hPast _ hLast)
  refine ⟨?_, ?_, ?_⟩
  · have hOnce := (hBefore.drain hTalks' hPast' (hAbove _ hLast)).once
    rw [everQueued_append] at hOnce ⊢
    rwa [hSame] at hOnce
  · intro c hMem
    obtain ⟨-, -, -, hNew⟩ := talks_drainOnce hTalks' hPast'
    rw [hSame] at hNew
    rcases List.mem_append.mp hMem with hLater | hOld
    · exact (hNew c (List.mem_reverse.mp hLater)).2
    · exact (mem_forgetBefore.mp hOld).2
  · rintro memory' r rfl
    exact (talks_drainOnce hTalks (hPast _ hLast)).2.1

/-- The world with a rejected agreement that the subgraph shows accepted at block 3. -/
def rejectedWorld : World :=
  { (World.fresh 5 5 sampleRequests).setRow 10 { sampleAgreement with status := .rejected } with
    indexed := ⟨acceptedGraph, fun _ => .absent⟩ }

def changeRead : List Choice :=
  [.page ⟨[acceptedEntity], 3, some 5⟩, .ok, .rows [10], .answer false]

theorem exists_talk_of_converse (memory : ListenerMemory) (cs : List Choice)
    (out : ListenerMemory × Except Unit DrainOutcome) (queued : List Change)
    (h : (((drainOnce sampleConfig memory).converse World.exec rejectedWorld cs).2.1,
      ((drainOnce sampleConfig memory).converse World.exec rejectedWorld cs).1.all givesPast,
      checksQueued ((drainOnce sampleConfig memory).converse World.exec rejectedWorld cs).1) =
        (some out, true, queued)) :
    ∃ talk, (drainOnce sampleConfig memory).Talks talk (some out) ∧ OnlyPast talk ∧
      checksQueued talk = queued := by
  obtain ⟨hOut, hRest⟩ := Prod.mk.inj h
  obtain ⟨hPast, hQueued⟩ := Prod.mk.inj hRest
  have hTalks := talks_converse World.exec (drainOnce sampleConfig memory) rejectedWorld cs
  rw [hOut] at hTalks
  exact ⟨_, hTalks, List.all_eq_true.mp hPast, hQueued⟩

/-- The push of the check fails and the cursor is held; the next drain queues it, and the one after
that reads the change again and does not. -/
theorem rejected_agreement_checked_once : ∃ drains memory talk,
    Polled sampleConfig drains memory ∧ drains.length = 2 ∧
      everQueued (drains ++ [(memory, talk)]) = [(10, 3)] ∧
      (everQueued (drains ++ [(memory, talk)])).Nodup ∧
      remembered sampleConfig memory talk = [(10, 3)] ∧ drainStart sampleConfig memory ≤ 3 := by
  let memory1 : ListenerMemory :=
    { cursor := .atBlock 3, cursorHold := some ⟨.atBlock 3, 5⟩, lastPersistedTimestamp := some 5,
      lastSubgraphHead := 3 }
  let memory2 : ListenerMemory :=
    { cursor := .atBlock 4, lastPersistedTimestamp := some 5, lastSubgraphHead := 3,
      stallCount := 1, liveChecks := [(10, 3)] }
  obtain ⟨talk0, hTalks0, hPast0, hQueued0⟩ := exists_talk_of_converse
    { cursor := .atBlock 3 } (changeRead ++ [.fail, .ok, .ok, .ok, .ok, .ok])
    (memory1, .ok ⟨1, 0, 1, 3, false⟩) [] (by decide +kernel)
  obtain ⟨talk1, hTalks1, hPast1, hQueued1⟩ := exists_talk_of_converse
    memory1 (changeRead ++ [.ok, .ok, .ok, .ok, .ok])
    (memory2, .ok ⟨1, 0, 0, 3, false⟩) [(10, 3)] (by decide +kernel)
  obtain ⟨talk2, hTalks2, hPast2, hQueued2⟩ := exists_talk_of_converse
    memory2 (changeRead ++ [.ok, .ok, .ok])
    ({ memory2 with stallCount := 2 }, .ok ⟨1, 0, 0, 3, false⟩) [] (by decide +kernel)
  have hPolled := (Polled.drain (.start rfl) hTalks0).drain hTalks1
  obtain ⟨hOnce, hFrom, -⟩ := one_check_per_change hPolled hTalks2
    (by simp [hPast0, hPast1, hPast2]) (by simp [sampleConfig, Cursor.atBlock, memory1, memory2])
  have hRemembered : remembered sampleConfig memory2 talk2 = [(10, 3)] := by
    unfold remembered
    rw [hQueued2]
    decide
  refine ⟨_, _, _, hPolled, rfl, ?_, hOnce, hRemembered, ?_⟩
  · simp [everQueued, hQueued0, hQueued1, hQueued2]
  · exact hFrom (10, 3) (by rw [hRemembered]; exact List.mem_singleton_self _)

end Runs

end Listener

end Dipper
