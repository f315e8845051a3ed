import Dipper.Passes
import Dipper.Queue
import Dipper.Registering
import Dipper.Results

/-! What the jobs and scans owe after a step they have taken: a reassessment of the request after an
agreement has failed, and a proposal after one has been registered.  They pay it unless a call in
between fails or the run is cut there. -/

namespace Dipper

open Concurrent

namespace World

variable {w w' w'' : World}

theorem RowsGrow.refl (w : World) : w.RowsGrow w := fun _ row hRow => ⟨row, hRow, .refl row⟩

theorem RowsGrow.trans (h : w.RowsGrow w') (h' : w'.RowsGrow w'') : w.RowsGrow w'' := by
  intro id row hRow
  obtain ⟨row', hRow', hGrows⟩ := h id row hRow
  obtain ⟨row'', hRow'', hGrows'⟩ := h' id row' hRow'
  exact ⟨row'', hRow'', hGrows.trans hGrows'⟩

theorem Effect.rowsGrow {o : Op} (h : Effect w w' o) : w.RowsGrow w' := by
  intro id row hRow
  cases hOp : o.registers with
  | false => exact (h.grown hOp).grows hRow
  | true =>
    cases o with
    | register params replaces =>
      have hEffect := h.row trivial id
      rw [hRow] at hEffect
      generalize w'.row id = r at hEffect ⊢
      cases hEffect with
      | same => exact ⟨row, rfl, .refl row⟩
    | _ => cases hOp

theorem Performs.effect {allow : World → Op → Choice → Prop} {o : Op} {r : Res o}
    (h : Performs allow w o r w') : Effect w w' o := by
  obtain ⟨c, -, hExec⟩ := h
  exact exec_effect hExec

end World

open World

section Contracts

variable {δ α β : Type} {allow : World → Op → Choice → Prop}
  {due pays : Action World Op → δ → Prop} {owing : Op → Prop} {owed : List δ} {w w' : World} {o : Op}

/-- A program that keeps account of what it owes. -/
abbrev Owes (allow : World → Op → Choice → Prop) (due pays : Action World Op → δ → Prop)
    (owing : Op → Prop) (p : Act α) (post : α → List δ → World → Prop) (owed : List δ) (w : World) :
    Prop :=
  p.Meets (World.Performs allow) World.RowsGrow (Prog.Accounts due pays owing World.RowsGrow)
    post owed w

theorem owes_bind {p : Act α} {k : α → Act β} {post : β → List δ → World → Prop}
    (h : Owes allow due pays owing p
      (fun a owed w => Owes allow due pays owing (k a) post owed w) owed w) :
    Owes allow due pays owing (p >>= k) post owed w :=
  Prog.Meets.bind RowsGrow.refl h

theorem owes_pure {a : α} {post : α → List δ → World → Prop}
    (h : ∀ w', w.RowsGrow w' → post a owed w') :
    Owes allow due pays owing (pure a) post owed w := h

theorem owes_call {post : Res o → List δ → World → Prop}
    (h : ∀ w1 r w2, w.RowsGrow w1 → World.Performs allow w1 o r w2 → ∃ owed',
      Prog.Accounts due pays owing World.RowsGrow w1 owed o w2 owed' ∧
        ∀ w3, w2.RowsGrow w3 → post r owed' w3) :
    Owes allow due pays owing (call o) post owed w :=
  fun w1 hGrow r w2 hPerforms => h w1 r w2 hGrow hPerforms

theorem owes_reached {p : Act α} {post : α → List δ → World → Prop}
    (h : Owes allow due pays owing p post owed w) :
    Owes allow due pays owing p (fun a owed' w' => post a owed' w' ∧ w.RowsGrow w') owed w :=
  Prog.Meets.reached (fun _ _ _ h h' => h.trans h') (fun _ _ h => h) (fun _ _ _ _ _ h => h.reached) h

theorem accounts_of_quiet {r : Res o} (h : World.Performs allow w o r w')
    (hQuiet : ∀ x, ¬ due ⟨w, o, w'⟩ x) (hOwing : owed ≠ [] → owing o) :
    Prog.Accounts due pays owing World.RowsGrow w owed o w' owed :=
  ⟨h.effect.rowsGrow, fun x hx => absurd hx (hQuiet x), fun _ hx => .inl hx, hOwing⟩

theorem owes_quiet {P : Op → Prop} {p : Act α} (hp : p.OnlyOps P)
    (hQuiet : ∀ o, P o → ∀ w w' x, Effect w w' o → ¬ due ⟨w, o, w'⟩ x) :
    Owes allow due pays owing p (fun _ owed' w' => owed' = [] ∧ w.RowsGrow w') [] w :=
  Prog.Meets.under (fun _ _ hGrow hw => hw.trans hGrow) (fun o ho w1 _ w2 hw hPerforms =>
    ⟨accounts_of_quiet hPerforms (fun x => hQuiet o ho w1 w2 x hPerforms.effect) (absurd rfl),
      hw.trans hPerforms.effect.rowsGrow⟩) hp (.refl w)

theorem rowsGrow_of_runs {p : Act α} {tr : List (Action World Op)} {out : Option α}
    (run : p.Runs (World.Performs allow) World.RowsGrow w tr out w') : w.RowsGrow w' :=
  run.reached (fun _ _ _ h h' => h.trans h') (fun _ _ h => h) fun e he => by
    obtain ⟨r, hPerforms⟩ := run.performed e he
    exact hPerforms.effect.rowsGrow

theorem QueueRow.job_of_next {row row' : QueueRow} {out : Option (Except JobError Unit)}
    (h : some row' ∈ row.next out) : row'.job = row.job := by
  have hRequeue : ∀ countAttempt, (row.requeue countAttempt).job = row.job := by
    intro countAttempt
    cases countAttempt <;> rfl
  have hCases : row' = row ∨ ∃ countAttempt, row' = row.requeue countAttempt := by
    match out with
    | none | some (.error (.retryable _)) | some (.error (.deferred _)) =>
      simp only [QueueRow.next, QueueRow.after, List.mem_cons, Option.some.injEq,
        List.not_mem_nil, or_false] at h
      exact h.symm.imp_right fun h => ⟨_, h⟩
    | some (.ok _) | some (.error .fatal) =>
      simp only [QueueRow.next, QueueRow.after, List.mem_cons, Option.some.injEq, reduceCtorEq,
        List.not_mem_nil, or_false, false_or] at h
      exact .inl h
  rcases hCases with rfl | ⟨countAttempt, rfl⟩
  · rfl
  · exact hRequeue countAttempt

theorem QueueRow.mem_next (row : QueueRow) (out : Option (Except JobError Unit)) :
    some row ∈ row.next out := by
  cases out <;> exact List.mem_cons_of_mem _ (List.mem_singleton.mpr rfl)

/-- What the attempts of a job make due is paid by the end of each, so over its whole life. -/
theorem Life.settled {config : Config} {row : QueueRow} {tr : List (Action World Op)}
    {last : Option QueueRow} {P : World → Prop} (hStable : ∀ w w', w.RowsGrow w' → P w → P w')
    (hJob : ∀ w, P w → Owes allow due pays owing (processJob config row.job)
      (fun _ owed' _ => owed' = []) [] w)
    (h : Life config allow (Prog.StopsPaid owing) row w tr last w') (hw : P w) :
    Settled due pays tr := by
  have hAttempt : ∀ {row' : QueueRow} {w w' : World} {tr : List (Action World Op)} {out},
      row'.job = row.job → P w →
      (processJob config row'.job).Runs (World.Performs allow) World.RowsGrow w tr out w' →
      (out = none → Prog.StopsPaid owing tr) → Settled due pays tr := by
    intro row' w w' tr out hSame hw run hCut
    rw [hSame] at run
    exact ((hJob w hw).settled (fun _ _ _ h => h) run fun hOut => ⟨fun _ => rfl, hCut hOut⟩).2
  generalize hRow : row = row0 at h
  have hSame : row0.job = row.job := by rw [hRow]
  clear hRow
  induction h with
  | waits => trivial
  | leaves _ run hCut _ => exact hAttempt hSame hw run hCut
  | again _ run hCut hRow' _ ih =>
    exact (hAttempt hSame hw run hCut).append
      (ih (hStable _ _ (rowsGrow_of_runs run) hw) ((QueueRow.job_of_next hRow').trans hSame))
  | busy _ _ _ ih => exact ih hw hSame

theorem runs_play_allowed [∀ w o c, Decidable (allow w o c)] (p : Act α) (w : World)
    (cs : List Choice) :
    p.Runs (World.Performs allow) World.RowsGrow w (p.play (World.execAllowed allow) w cs).1
      (p.play (World.execAllowed allow) w cs).2.1 (p.play (World.execAllowed allow) w cs).2.2 := by
  refine Prog.runs_play RowsGrow.refl ?_ p w cs
  intro w o c r w' h
  exact performs_of_execAllowed h

theorem exists_life_of_play (config : Config) (allow : World → Op → Choice → Prop)
    [∀ w o c, Decidable (allow w o c)] (cut : List (Action World Op) → Prop) (row : QueueRow)
    (w : World) (cs : List Choice) (P : List (Action World Op) → Prop)
    (hQueued : row.status = .queued)
    (hOut : ((processJob config row.job).play (World.execAllowed allow) w cs).2.1 = some (.ok ()))
    (hTrace : P ((processJob config row.job).play (World.execAllowed allow) w cs).1) :
    ∃ tr w', Life config allow cut row w tr none w' ∧ P tr := by
  refine ⟨_, _, .leaves hQueued (runs_play_allowed _ w cs) ?_ ?_, hTrace⟩
  · rw [hOut]
    nofun
  · rw [hOut]
    exact List.mem_cons_self

theorem exists_life_of_play_again (config : Config) (allow : World → Op → Choice → Prop)
    [∀ w o c, Decidable (allow w o c)] (row : QueueRow) (w : World) (cs cs' : List Choice)
    (P : List (Action World Op) → Prop) (hQueued : row.status = .queued)
    (hOut : ((processJob config row.job).play (World.execAllowed allow)
      ((processJob config row.job).play (World.execAllowed allow) w cs).2.2 cs').2.1 =
        some (.ok ()))
    (hTrace : P (((processJob config row.job).play (World.execAllowed allow) w cs).1 ++
      ((processJob config row.job).play (World.execAllowed allow)
        ((processJob config row.job).play (World.execAllowed allow) w cs).2.2 cs').1)) :
    ∃ tr w', Life config allow (fun _ => True) row w tr none w' ∧ P tr := by
  obtain ⟨tr, w', hLife, hTrace⟩ := exists_life_of_play config allow (fun _ => True) row
    ((processJob config row.job).play (World.execAllowed allow) w cs).2.2 cs'
    (fun tr => P (((processJob config row.job).play (World.execAllowed allow) w cs).1 ++ tr))
    hQueued hOut hTrace
  exact ⟨_, w', .again hQueued (runs_play_allowed _ w cs) (fun _ => trivial)
    (QueueRow.mem_next _ _) hLife, hTrace⟩

/-- What is owed after the step of an agreement of the request, if it succeeded. -/
def owedAfter (request : IndexingRequestId) :
    Except RegistryError IndexingAgreementId → List (IndexingAgreementId × IndexingRequestId)
  | .ok id => [(id, request)]
  | .error _ => []

end Contracts

section Failures

variable {config : Config} {w w' : World} {id : IndexingAgreementId} {request : IndexingRequestId}
  {o : Op} {x : IndexingAgreementId × IndexingRequestId} {scan : Bool}

/-- The action has moved an agreement of the request to `Rejected`, `Unresponsive` or
`Expired`. -/
def Fails (e : Action World Op) (x : IndexingAgreementId × IndexingRequestId) : Prop :=
  ∃ row ∈ e.before.row x.1, ∃ row' ∈ e.after.row x.1, row.indexingRequestId = x.2 ∧
    row'.status ≠ row.status ∧
    (row'.status = .rejected ∨ row'.status = .unresponsive ∨ row'.status = .expired)

def Reassesses (e : Action World Op) (x : IndexingAgreementId × IndexingRequestId) : Prop :=
  e.op = .push (.reassessIndexingRequest x.2) ∧
    e.after.jobs = e.before.jobs ++ [.reassessIndexingRequest x.2]

instance (e : Action World Op) (x : IndexingAgreementId × IndexingRequestId) :
    Decidable (Fails e x) := by
  unfold Fails
  infer_instance

instance (e : Action World Op) (x : IndexingAgreementId × IndexingRequestId) :
    Decidable (Reassesses e x) := by
  unfold Reassesses
  infer_instance

def RowUpdate.fails : RowUpdate → Bool
  | .markAsUnresponsive | .markAsRejected _ | .markAsExpired => true
  | _ => false

theorem update_of_fails (h : Effect w w' o) (hDistinct : Distinct o)
    (hFails : Fails ⟨w, o, w'⟩ x) : ∃ u : RowUpdate, o = .update x.1 u ∧ u.fails = true := by
  obtain ⟨row, hRow, row', hRow', -, hMoved, hStatus⟩ := hFails
  have hEffect := h.row hDistinct x.1
  rw [Option.mem_def.mp hRow, Option.mem_def.mp hRow'] at hEffect
  rcases hEffect.status with ⟨row1, hSame, hEq⟩ | ⟨u, hOp, hSets⟩ | hAccepted | hEnded | ⟨hNone, -⟩
  · cases hSame
    exact absurd hEq hMoved
  · refine ⟨u, hOp, ?_⟩
    rcases hStatus with hStatus | hStatus | hStatus <;> rw [hStatus] at hSets <;>
      cases u <;> first | rfl | cases hSets
  · rw [hAccepted] at hStatus
    rcases hStatus with hStatus | hStatus | hStatus <;> cases hStatus
  · rcases hStatus with hStatus | hStatus | hStatus <;> rw [hStatus] at hEnded <;> cases hEnded
  · cases hNone

/-- The calls from a mark on are answered: the mark's answer is not lost, and the calls up to the
push, without which a proposal job or a scan gives up, succeed. -/
def CallsAnswered (scan : Bool) (w : World) : Op → Choice → Prop
  | .update _ u, .lost => u.fails = false
  | .deletePendingByNew _, .fail | .deletePendingByNew _, .lost => scan = true
  | .getRequest _, .fail => False
  | .getRequest request, _ => scan = false ∨ (w.requests.lookup request).isSome = true
  | .push (.reassessIndexingRequest _), .fail => False
  | _, _ => True

instance (scan : Bool) (w : World) (o : Op) (c : Choice) : Decidable (CallsAnswered scan w o c) := by
  induction o using Op.casesOn with
  | update id u =>
    induction c using Choice.casesOn with
    | lost => exact inferInstanceAs (Decidable (u.fails = false))
    | _ => exact isTrue trivial
  | deletePendingByNew new =>
    induction c using Choice.casesOn with
    | fail | lost => exact inferInstanceAs (Decidable (scan = true))
    | _ => exact isTrue trivial
  | getRequest request =>
    induction c using Choice.casesOn with
    | fail => exact isFalse not_false
    | _ => exact instDecidableOr
  | push job =>
    induction job using Job.casesOn with
    | reassessIndexingRequest request =>
      induction c using Choice.casesOn with
      | fail => exact isFalse not_false
      | _ => exact isTrue trivial
    | _ => exact isTrue trivial
  | _ => exact isTrue trivial

/-- The operations from a mark on, up to the push. -/
def Op.awaitsReassessment : Op → Prop
  | .update _ u => u.fails = true
  | .deletePendingByNew _ | .getRequest _ => True
  | _ => False

def World.OfRequest (w : World) (id : IndexingAgreementId) (request : IndexingRequestId) : Prop :=
  ∃ row, w.row id = some row ∧ row.indexingRequestId = request

theorem World.OfRequest.mono (h : w.OfRequest id request) (hGrow : w.RowsGrow w') :
    w'.OfRequest id request := by
  obtain ⟨row, hRow, hRequest⟩ := h
  obtain ⟨row', hRow', hGrows⟩ := hGrow id row hRow
  exact ⟨row', hRow', hGrows.request.trans hRequest⟩

/-- A program that owes the reassessments of the agreements it fails. -/
abbrev OwesReassessments {α : Type} (scan : Bool) (p : Act α)
    (post : α → List (IndexingAgreementId × IndexingRequestId) → World → Prop)
    (owed : List (IndexingAgreementId × IndexingRequestId)) (w : World) : Prop :=
  Owes (CallsAnswered scan) Fails Reassesses Op.awaitsReassessment p post owed w

theorem owes_unmarking {post : Res o → List (IndexingAgreementId × IndexingRequestId) → World → Prop}
    {owed : List (IndexingAgreementId × IndexingRequestId)} (hDistinct : Distinct o)
    (hOp : ∀ a u, o ≠ .update a u) (hOwing : owed ≠ [] → o.awaitsReassessment)
    (hPost : ∀ w1 r w2 w3, World.Performs (CallsAnswered scan) w1 o r w2 → w.RowsGrow w1 →
      w2.RowsGrow w3 → post r owed w3) :
    OwesReassessments scan (call o) post owed w := by
  refine owes_call fun w1 r w2 hGrow hPerforms => ⟨owed,
    accounts_of_quiet hPerforms (fun x hFails => ?_) hOwing,
    fun w3 hGrow' => hPost w1 r w2 w3 hPerforms hGrow hGrow'⟩
  obtain ⟨u, hUpdate, -⟩ := update_of_fails hPerforms.effect hDistinct hFails
  exact hOp _ _ hUpdate

theorem owes_mark {u : RowUpdate} (hMark : u.fails = true) (hRow : w.OfRequest id request) :
    OwesReassessments scan (Registry.update id u)
      (fun r owed' _ => owed' = owedAfter request (r.map fun _ => id)) [] w := by
  refine owes_call fun w1 r w2 hGrow hPerforms => ?_
  match r with
  | .ok x =>
    refine ⟨[(id, request)], ⟨hPerforms.effect.rowsGrow, fun y hy => ?_, nofun, fun _ => hMark⟩,
      fun _ _ => rfl⟩
    obtain ⟨u', hOp, -⟩ := update_of_fails hPerforms.effect trivial hy
    obtain ⟨row, hRow1, hRequest⟩ := hRow.mono hGrow
    obtain ⟨row1, hMem, -, -, hOf, -⟩ := hy
    cases hOp
    obtain rfl := Option.some.inj (hRow1.symm.trans hMem)
    exact List.mem_singleton.mpr (Prod.ext rfl (hOf.symm.trans hRequest))
  | .error e =>
    obtain ⟨c, hAllow, hExec⟩ := hPerforms
    have hAnswered : c ≠ .lost := by
      rintro rfl
      exact Bool.false_ne_true (Eq.symm hAllow |>.trans hMark)
    obtain rfl := statement_error hAnswered runUpdate_error hExec
    refine ⟨[], accounts_of_quiet ⟨c, hAllow, hExec⟩ (fun y hy => ?_) (absurd rfl), fun _ _ => rfl⟩
    obtain ⟨row, hMem, row', hMem', -, hMoved, -⟩ := hy
    exact hMoved (by rw [Option.some.inj (hMem.symm.trans hMem')])

theorem owes_push :
    OwesReassessments scan (push (.reassessIndexingRequest request))
      (fun _ owed' _ => owed' = []) [(id, request)] w := by
  refine owes_call fun w1 r w2 _ hPerforms => ⟨[], ⟨hPerforms.effect.rowsGrow, fun x hx => ?_,
    fun x hx => .inr ?_, absurd rfl⟩, fun _ _ => rfl⟩
  · obtain ⟨u, hOp, -⟩ := update_of_fails hPerforms.effect trivial hx
    cases hOp
  · obtain rfl := List.mem_singleton.mp hx
    obtain ⟨c, hAllow, hExec⟩ := hPerforms
    have hAccepted : c ≠ .fail := by
      rintro rfl
      exact hAllow
    rw [send_sent hAccepted hExec]
    exact ⟨rfl, rfl⟩

theorem answered_getRequest {r : Except RegistryError (Option IndexingRequest)}
    (h : World.Performs (CallsAnswered scan) w (.getRequest request) r w') :
    r = .ok (w.requests.lookup request) ∧
      (scan = false ∨ (w.requests.lookup request).isSome = true) := by
  obtain ⟨c, hAllow, hExec⟩ := h
  cases c with
  | ok => exact ⟨(Prod.mk.inj (Option.some.inj hExec)).1.symm, hAllow⟩
  | fail => exact absurd hAllow id
  | _ => cases hExec

theorem owes_queueReassessment :
    OwesReassessments false (SendProposal.queueReassessment request)
      (fun _ owed' _ => owed' = []) [(id, request)] w := by
  refine owes_bind (owes_unmarking trivial nofun (fun _ => trivial) fun w1 r w2 w3 h _ _ => ?_)
  obtain ⟨rfl, -⟩ := answered_getRequest h
  refine owes_bind (owes_push.mono fun r owed w' hOwed => ?_)
  subst hOwed
  cases r <;> exact owes_pure fun _ _ => rfl

theorem owes_markAndReassess {mark : RowUpdate} (hMark : mark.fails = true)
    (hRow : w.OfRequest id request) :
    OwesReassessments false (SendProposal.markAndReassess id request mark)
      (fun _ owed' _ => owed' = []) [] w := by
  refine owes_bind ((owes_mark hMark hRow).mono fun r owed w' hOwed => ?_)
  subst hOwed
  match r with
  | .error e => exact owes_pure fun _ _ => rfl
  | .ok x =>
    refine owes_bind (owes_unmarking trivial nofun (fun _ => trivial) fun w1 r w2 w3 h _ _ => ?_)
    obtain ⟨c, hAllow, hExec⟩ := h
    match r with
    | .ok _ => exact owes_queueReassessment
    | .error _ =>
      cases c with
      | fail | lost => cases hAllow
      | _ => cases hExec

/-- An attempt of a proposal job ends owing nothing. -/
theorem owes_sendProposal (hRow : w.OfRequest id request) :
    OwesReassessments false (SendProposal.handle id request) (fun _ owed' _ => owed' = []) [] w := by
  refine owes_bind (owes_bind (owes_unmarking trivial nofun (absurd rfl) fun w1 r w2 w3 h h1 h3 => ?_))
  have hRow3 := hRow.mono ((h1.trans h.effect.rowsGrow).trans h3)
  match r with
  | .error e => exact owes_pure fun _ _ => owes_pure fun _ _ => rfl
  | .ok rows =>
    refine owes_pure fun w4 h4 => ?_
    cases hHead : (Registry.agreements rows).head? with
    | none => exact owes_pure fun _ _ => rfl
    | some agreement =>
      dsimp only
      split
      · exact owes_pure fun _ _ => rfl
      · refine owes_bind (owes_unmarking trivial nofun (absurd rfl) fun w5 r w6 w7 h' h5 h7 => ?_)
        have hRow7 := hRow3.mono (((h4.trans h5).trans h'.effect.rowsGrow).trans h7)
        match r with
        | .accepted =>
          refine owes_bind (owes_unmarking trivial nofun (absurd rfl) fun _ r _ _ _ _ _ => ?_)
          match r with
          | .ok _ => exact owes_pure fun _ _ => rfl
          | .error _ => exact owes_pure fun _ _ => rfl
        | .rejected reason => exact owes_markAndReassess rfl hRow7
        | .noOutcome => exact owes_markAndReassess rfl hRow7
        | .failed => exact owes_markAndReassess rfl hRow7

theorem owes_expire {agreement : IndexingAgreement}
    (hRow : w.OfRequest agreement.id agreement.indexingRequestId) :
    OwesReassessments true (Expiration.expire agreement) (fun _ owed' _ => owed' = []) [] w := by
  refine owes_bind ((owes_mark rfl hRow).mono fun r owed w' hOwed => ?_)
  subst hOwed
  match r with
  | .error e => exact owes_pure fun _ _ => rfl
  | .ok x =>
    refine owes_bind (owes_unmarking trivial nofun (fun _ => trivial) fun _ _ _ _ _ _ _ => ?_)
    refine owes_bind (owes_unmarking trivial nofun (fun _ => trivial) fun w1 r w2 w3 h _ _ => ?_)
    obtain ⟨hResult, hKnown⟩ := answered_getRequest h
    obtain ⟨stored, hStored⟩ := Option.isSome_iff_exists.mp (hKnown.resolve_left nofun)
    rw [hStored] at hResult
    subst hResult
    refine owes_bind (owes_push.mono fun r owed w' hOwed => ?_)
    subst hOwed
    exact owes_pure fun _ _ => rfl

theorem owes_expireEach {agreements : List IndexingAgreement}
    (hRows : ∀ a ∈ agreements, w.OfRequest a.id a.indexingRequestId) :
    OwesReassessments true (Expiration.expireEach agreements)
      (fun _ owed' _ => owed' = []) [] w := by
  induction agreements generalizing w with
  | nil => exact owes_pure fun _ _ => rfl
  | cons agreement rest ih =>
    refine owes_bind (owes_unmarking trivial nofun (absurd rfl) fun w1 r w2 w3 h h1 h3 => ?_)
    have hGrow := (h1.trans h.effect.rowsGrow).trans h3
    match r with
    | true => exact owes_pure fun _ _ => rfl
    | false =>
      have hFirst := owes_expire ((hRows agreement (by simp)).mono hGrow)
      refine owes_bind ((owes_reached hFirst).mono fun _ owed w4 h4 => ?_)
      obtain ⟨rfl, hGrow4⟩ := h4
      exact ih fun a ha => (hRows a (by simp [ha])).mono (hGrow.trans hGrow4)

theorem owes_scan :
    OwesReassessments true (Expiration.scan config) (fun _ owed' _ => owed' = []) [] w := by
  refine owes_bind (owes_unmarking trivial nofun (absurd rfl) fun _ r _ w1 _ _ _ => ?_)
  match r with
  | .error _ | .ok none | .ok (some (_, none)) => exact owes_pure fun _ _ => rfl
  | .ok (some (_, some chainTs)) =>
    refine owes_bind (owes_bind (owes_unmarking trivial nofun (absurd rfl)
      fun w2 r w3 w4 h _ h4 => ?_))
    match r with
    | .error _ => exact owes_pure fun _ _ => owes_pure fun _ _ => rfl
    | .ok rows =>
      refine owes_pure fun w5 h5 => owes_expireEach fun a ha => ?_
      obtain ⟨p, hMem, rfl⟩ := List.mem_map.mp ha
      obtain ⟨c, -, hExec⟩ := h
      have hOf : w2.OfRequest p.1 p.2.indexingRequestId := ⟨p.2, (exec_select_row hExec hMem).1, rfl⟩
      exact ((hOf.mono (exec_effect hExec).rowsGrow).mono h4).mono h5

/-- The work that fails agreements: a proposal job, on the queue or off it, and an expiration
scan. -/
inductive Work : Type
  | proposal (id : IndexingAgreementId) (request : IndexingRequestId) (maxAttempts : Nat)
  | scan
  deriving DecidableEq, Repr

/-- The work is over: the job has left the queue, or the scan has returned, or it was cut short. -/
def Work.Over (config : Config) (allow : Bool → World → Op → Choice → Prop)
    (cut : List (Action World Op) → Prop) (w : World) (tr : List (Action World Op)) : Work → Prop
  | .proposal id request maxAttempts =>
    w.OfRequest id request ∧ ∃ last w', HasLeft last ∧
      Life config (allow false) cut ⟨.sendIndexingAgreementProposal id request, maxAttempts, 0, .queued⟩
        w tr last w'
  | .scan =>
    ∃ out w', (out = none → cut tr) ∧
      (Expiration.scan config).Runs (World.Performs (allow true)) World.RowsGrow w tr out w'

/-- A proposal job or a scan whose calls from a mark on are answered, and that is not cut short
between the mark and the push, has queued a reassessment after each agreement it failed. -/
theorem failures_reassessed {work : Work} {tr : List (Action World Op)}
    (h : work.Over config CallsAnswered (Prog.StopsPaid Op.awaitsReassessment) w tr) :
    Settled Fails Reassesses tr := by
  cases work with
  | proposal id request maxAttempts =>
    obtain ⟨hRow, last, w', -, hLife⟩ := h
    exact Life.settled (fun _ _ hGrow h => h.mono hGrow) (fun _ => owes_sendProposal) hLife hRow
  | scan =>
    obtain ⟨out, w', hCut, run⟩ := h
    exact (owes_scan.settled (fun _ _ _ h => h) run fun hOut => ⟨fun _ => rfl, hCut hOut⟩).2

/-- A proposal job whose indexer refuses the proposal and whose calls all come back. -/
theorem refusal_reassessed : ∃ tr,
    (Work.proposal 10 1 3).Over sampleConfig CallsAnswered (Prog.StopsPaid Op.awaitsReassessment)
      offeredWorld tr ∧
    (∃ e ∈ tr, Fails e (10, 1)) ∧ Settled Fails Reassesses tr := by
  obtain ⟨tr, w', hLife, hFails⟩ := exists_life_of_play sampleConfig (CallsAnswered false)
    (Prog.StopsPaid Op.awaitsReassessment) ⟨.sendIndexingAgreementProposal 10 1, 3, 0, .queued⟩
    offeredWorld [.rows [10], .reply (.rejected "PRICE_TOO_LOW"), .ok, .ok, .ok, .ok]
    (fun tr => ∃ e ∈ tr, Fails e (10, 1)) rfl (by decide +kernel) (by decide +kernel)
  have hOver : (Work.proposal 10 1 3).Over sampleConfig CallsAnswered
      (Prog.StopsPaid Op.awaitsReassessment) offeredWorld tr :=
    ⟨⟨sampleAgreement, rfl, rfl⟩, none, w', trivial, hLife⟩
  exact ⟨tr, hOver, hFails, failures_reassessed hOver⟩

/-- A proposal job whose worker ends right after it has marked the agreement rejected: its next
attempt finds the agreement no longer `Created`, and the job is removed. -/
theorem refusal_not_reassessed : ∃ tr,
    (Work.proposal 10 1 3).Over sampleConfig (fun _ _ _ _ => True) (fun _ => True) offeredWorld tr ∧
      ¬ Settled Fails Reassesses tr := by
  obtain ⟨tr, w', hLife, ⟨e, hMem, hDue⟩, hUnpaid⟩ := exists_life_of_play_again sampleConfig
    (fun _ _ _ => True) ⟨.sendIndexingAgreementProposal 10 1, 3, 0, .queued⟩ offeredWorld
    [.rows [10], .reply (.rejected "PRICE_TOO_LOW"), .ok] [.rows [10]]
    (fun tr => (∃ e ∈ tr[2]?, Fails e (10, 1)) ∧ ∀ e ∈ tr.drop 3, ¬ Reassesses e (10, 1))
    rfl (by decide +kernel) (by decide +kernel)
  refine ⟨tr, ⟨⟨sampleAgreement, rfl, rfl⟩, none, w', trivial, hLife⟩, fun h => ?_⟩
  obtain ⟨e', hMem', hPaid⟩ := h.paid hMem hDue
  exact hUnpaid e' hMem' hPaid

end Failures

section Registrations

open Reassess

variable {config : Config} {w w' : World} {id : IndexingAgreementId} {request : IndexingRequestId}
  {o : Op} {x : IndexingAgreementId × IndexingRequestId}

def Registers (e : Action World Op) (x : IndexingAgreementId × IndexingRequestId) : Prop :=
  e.before.row x.1 = none ∧
    ∃ row ∈ e.after.row x.1, row.status = .created ∧ row.indexingRequestId = x.2

def Proposes (e : Action World Op) (x : IndexingAgreementId × IndexingRequestId) : Prop :=
  e.op = .push (.sendIndexingAgreementProposal x.1 x.2) ∧
    e.after.jobs = e.before.jobs ++ [.sendIndexingAgreementProposal x.1 x.2]

instance (e : Action World Op) (x : IndexingAgreementId × IndexingRequestId) :
    Decidable (Registers e x) := by
  unfold Registers
  infer_instance

instance (e : Action World Op) (x : IndexingAgreementId × IndexingRequestId) :
    Decidable (Proposes e x) := by
  unfold Proposes
  infer_instance

theorem register_of_registers (h : Effect w w' o) (hRegisters : Registers ⟨w, o, w'⟩ x) :
    ∃ params replaces, o = .register params replaces ∧ (params.agreementId, params.requestId) = x := by
  obtain ⟨hNone, row, hRow, -, hRequest⟩ := hRegisters
  rcases h.origin hRow with ⟨row0, hRow0, -⟩ | ⟨-, params, replaces, hOp, hId, hParams⟩
  · cases hNone.symm.trans hRow0
  · rw [hParams] at hRequest
    exact ⟨params, replaces, hOp, Prod.ext hId hRequest⟩

/-- No registration's answer is lost, and no push of a proposal fails. -/
def ProposalsQueued (_ : World) : Op → Choice → Prop
  | .register .., .lost | .push (.sendIndexingAgreementProposal ..), .fail => False
  | _, _ => True

instance (w : World) (o : Op) (c : Choice) : Decidable (ProposalsQueued w o c) := by
  induction o using Op.casesOn with
  | register params replaces =>
    induction c using Choice.casesOn with
    | lost => exact isFalse not_false
    | _ => exact isTrue trivial
  | push job =>
    induction job using Job.casesOn with
    | sendIndexingAgreementProposal agreement request =>
      induction c using Choice.casesOn with
      | fail => exact isFalse not_false
      | _ => exact isTrue trivial
    | _ => exact isTrue trivial
  | _ => exact isTrue trivial

/-- A program that owes the proposals of the agreements it registers. -/
abbrev OwesProposals {α : Type} (p : Act α)
    (post : α → List (IndexingAgreementId × IndexingRequestId) → World → Prop)
    (owed : List (IndexingAgreementId × IndexingRequestId)) (w : World) : Prop :=
  Owes ProposalsQueued Registers Proposes (fun o => o.registers = true) p post owed w

theorem owes_unregistering {α : Type} {p : Act α} (hp : Unregistering p)
    {post : α → List (IndexingAgreementId × IndexingRequestId) → World → Prop}
    (hPost : ∀ a w', post a [] w') : OwesProposals p post [] w := by
  refine (owes_quiet hp fun o ho w w' x hEffect hRegisters => ?_).mono fun a owed w' h => ?_
  · obtain ⟨params, replaces, rfl, -⟩ := register_of_registers hEffect hRegisters
    cases ho
  · obtain ⟨rfl, -⟩ := h
    exact hPost a w'

theorem owes_register {params : NewAgreementParams} {replaces : Option IndexingAgreementId} :
    OwesProposals (call (.register params replaces))
      (fun r owed' _ => owed' =
        owedAfter params.requestId (Except.map (fun _ => params.agreementId) r)) [] w := by
  refine owes_call fun w1 r w2 hGrow hPerforms => ?_
  match r with
  | .ok _ =>
    refine ⟨_, ⟨hPerforms.effect.rowsGrow, fun x hx => ?_, nofun, fun _ => rfl⟩, fun _ _ => rfl⟩
    obtain ⟨params', replaces', hOp, rfl⟩ := register_of_registers hPerforms.effect hx
    cases hOp
    exact List.mem_singleton.mpr rfl
  | .error e =>
    obtain ⟨c, hAllow, hExec⟩ := hPerforms
    have hAnswered : c ≠ .lost := by
      rintro rfl
      exact hAllow
    obtain rfl := statement_error hAnswered runRegister_error hExec
    refine ⟨[], accounts_of_quiet ⟨c, hAllow, hExec⟩ (fun x hx => ?_) (absurd rfl), fun _ _ => rfl⟩
    obtain ⟨hNone, row, hRow, -⟩ := hx
    cases hNone.symm.trans hRow

theorem owes_registerNew {b : Baseline} {now : Nat} {indexer : IndexerId}
    {replaces : Option IndexingAgreement} :
    OwesProposals (registerNew config request b now indexer replaces)
      (fun r owed' _ => owed' = owedAfter request r) [] w := by
  refine owes_bind (owes_unregistering (.op rfl) fun fresh w1 => ?_)
  obtain ⟨id, versionHash⟩ := fresh
  have hRest : ∀ r w2, OwesProposals (pure r) (fun r owed' _ => owed' = owedAfter request r)
      (owedAfter request r) w2 := fun r w2 => owes_pure fun _ _ => rfl
  cases replaces with
  | none =>
    refine owes_bind (owes_register.mono fun r owed w2 hOwed => ?_)
    subst hOwed
    cases r <;> exact hRest _ w2
  | some old =>
    refine owes_bind (owes_register.mono fun r owed w2 hOwed => ?_)
    subst hOwed
    cases r <;> exact hRest _ w2

theorem owes_pushProposal :
    OwesProposals (push (.sendIndexingAgreementProposal id request))
      (fun _ owed' _ => owed' = []) [(id, request)] w := by
  refine owes_call fun w1 r w2 _ hPerforms => ⟨[], ⟨hPerforms.effect.rowsGrow, fun x hx => ?_,
    fun x hx => .inr ?_, absurd rfl⟩, fun _ _ => rfl⟩
  · obtain ⟨params, replaces, hOp, -⟩ := register_of_registers hPerforms.effect hx
    cases hOp
  · obtain rfl := List.mem_singleton.mp hx
    obtain ⟨c, hAllow, hExec⟩ := hPerforms
    have hAccepted : c ≠ .fail := by
      rintro rfl
      exact hAllow
    rw [send_sent hAccepted hExec]
    exact ⟨rfl, rfl⟩

theorem owes_addEach {b : Baseline} {now : Nat} {indexers : List IndexerId}
    {olds : List IndexingAgreement} :
    OwesProposals (addEach config request b now indexers olds) (fun _ owed' _ => owed' = []) [] w := by
  induction indexers generalizing w olds with
  | nil => exact owes_pure fun _ _ => rfl
  | cons indexer rest ih =>
    refine owes_bind (owes_registerNew.mono fun r owed w1 hOwed => ?_)
    subst hOwed
    match r with
    | .error _ => exact ih
    | .ok id =>
      refine owes_bind (owes_pushProposal.mono fun r owed w2 hOwed => ?_)
      subst hOwed
      match r with
      | .error _ => exact ih
      | .ok _ =>
        refine owes_bind (ih.mono fun r owed w3 hOwed => ?_)
        subst hOwed
        exact owes_pure fun _ _ => rfl

theorem owes_carryOut {b : Baseline} {diff : Diff} :
    OwesProposals (carryOut config request b diff) (fun _ owed' _ => owed' = []) [] w := by
  refine owes_bind (owes_unregistering asks_resolveDeadlineClock.minor.unregistering
    fun r w1 => ?_)
  match r with
  | .error _ => exact owes_pure fun _ _ => rfl
  | .ok now =>
    refine owes_bind (owes_unregistering (.op rfl) fun order w2 => ?_)
    refine owes_bind (owes_addEach.mono fun r owed w3 hOwed => ?_)
    subst hOwed
    refine owes_bind (owes_unregistering asks_announceProposed.minor.unregistering
      fun _ w4 => ?_)
    refine owes_bind (owes_unregistering
      (.forEach (fun a => cancels_cancelUnpaired.unregistering) r.2) fun _ w5 => ?_)
    dsimp only
    split <;> exact owes_pure fun _ _ => rfl

theorem owes_reassess :
    OwesProposals (Reassess.handle config request) (fun _ owed' _ => owed' = []) [] w := by
  refine owes_bind (owes_unregistering asks_readBaseline.minor.unregistering fun r w1 => ?_)
  match r with
  | .error _ | .ok none => exact owes_pure fun _ _ => rfl
  | .ok (some b) =>
    dsimp only
    split
    · exact owes_pure fun _ _ => rfl
    · refine owes_bind (owes_unregistering asks_selectTarget.minor.unregistering fun r w2 => ?_)
      match r with
      | .error _ => exact owes_pure fun _ _ => rfl
      | .ok picks =>
        refine owes_bind (owes_unregistering asks_signalShortfall.minor.unregistering
          fun _ w3 => ?_)
        split
        · exact owes_pure fun _ _ => rfl
        · exact owes_carryOut

/-- A reassessment that leaves the queue has queued a proposal after each agreement it registered,
if no registration's answer is lost, no push of a proposal fails and no attempt is cut short right
after a registration. -/
theorem registrations_proposed {maxAttempts : Nat} {tr : List (Action World Op)}
    {last : Option QueueRow}
    (h : Life config ProposalsQueued (Prog.StopsPaid fun o => o.registers = true)
      ⟨.reassessIndexingRequest request, maxAttempts, 0, .queued⟩ w tr last w') :
    Settled Registers Proposes tr :=
  Life.settled (P := fun _ => True) (fun _ _ _ h => h) (fun _ _ => owes_reassess) h trivial

/-- The outcomes of a first pass over the sample request up to the push of its one proposal. -/
def firstPass : List Choice :=
  [.ok, .rows [], .rows [], .rows [], .ok, .selected (.ok [⟨1, true⟩]), .ok, .ok, .order [1],
    .fresh 10 (List.replicate 32 0), .ok]

theorem registration_proposed : ∃ tr w',
    Life sampleConfig ProposalsQueued (Prog.StopsPaid fun o => o.registers = true)
      ⟨.reassessIndexingRequest 1, 3, 0, .queued⟩ (World.fresh 5 5 sampleRequests) tr none w' ∧
    (∃ e ∈ tr, Registers e (10, 1)) ∧ Settled Registers Proposes tr := by
  obtain ⟨tr, w', hLife, hRegisters⟩ := exists_life_of_play sampleConfig ProposalsQueued
    (Prog.StopsPaid fun o => o.registers = true) ⟨.reassessIndexingRequest 1, 3, 0, .queued⟩
    (World.fresh 5 5 sampleRequests) (firstPass ++ [.ok, .ok])
    (fun tr => ∃ e ∈ tr, Registers e (10, 1)) rfl
    (by decide +kernel) (by decide +kernel)
  exact ⟨tr, w', hLife, hRegisters, registrations_proposed hLife⟩

/-- A pass whose push of the proposal fails: the pass counts the failure and ends well, and the job
is removed. -/
theorem registration_not_proposed : ∃ tr w',
    Life sampleConfig (fun _ _ _ => True) (fun _ => True)
      ⟨.reassessIndexingRequest 1, 3, 0, .queued⟩ (World.fresh 5 5 sampleRequests) tr none w' ∧
      ¬ Settled Registers Proposes tr := by
  obtain ⟨tr, w', hLife, ⟨e, hMem, hDue⟩, hUnpaid⟩ := exists_life_of_play sampleConfig
    (fun _ _ _ => True) (fun _ => True) ⟨.reassessIndexingRequest 1, 3, 0, .queued⟩
    (World.fresh 5 5 sampleRequests) (firstPass ++ [.fail])
    (fun tr => (∃ e ∈ tr[10]?, Registers e (10, 1)) ∧ ∀ e ∈ tr.drop 11, ¬ Proposes e (10, 1))
    rfl (by decide +kernel) (by decide +kernel)
  refine ⟨tr, w', hLife, fun h => ?_⟩
  obtain ⟨e', hMem', hPaid⟩ := h.paid hMem hDue
  exact hUnpaid e' hMem' hPaid

end Registrations

end Dipper
