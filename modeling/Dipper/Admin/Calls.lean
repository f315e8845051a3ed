import Dipper.Admin.Requests
import Dipper.System

/-! What the calls of the admin RPC come to: what a signed message fixes of their effect, that a
request is reassessed after its target changed, and that they are the moves by which the services
see requests change. -/

namespace Dipper.Admin

section Effects

variable {Hash Signature : Type} {t t' : RequestTable} {key : RequestKey} {numCandidates : Nat}
  {newId id : IndexingRequestId} {outcome : SetTargetOutcome}

/-- What the transaction can do: nothing, with the id of the open request if there is one, or the
change of one row, which is then to be reassessed. -/
theorem RequestTable.set_cases
    (h : t.setIndexingTargetCandidates key numCandidates newId = some (outcome, t')) :
    (t' = t ∧ outcome.changes = none ∧ ∃ found, outcome.followUp numCandidates = (found, none) ∧
      ∀ id, found = some id → (t.rows.lookup id).isSome = true) ∨
    ∃ id row count, t'.rows = t.rows.insert id row ∧ outcome.changes = some id ∧
      outcome.followUp numCandidates = (some id, some count) := by
  unfold RequestTable.setIndexingTargetCandidates at h
  split at h
  · split at h
    · cases h
      exact .inl ⟨rfl, rfl, none, rfl, nofun⟩
    · split at h
      · cases h
      · cases h
        exact .inr ⟨newId, _, numCandidates, rfl, rfl, rfl⟩
  · rename_i id row hOpen
    dsimp only at h
    split at h
    · cases h
      refine .inl ⟨rfl, rfl, some id, rfl, fun id' hId => ?_⟩
      rw [← Option.some.inj hId, (RequestTable.of_findOpen hOpen).1]
      rfl
    · split at h
      · cases h
        exact .inr ⟨id, _, 0, rfl, rfl, rfl⟩
      · cases h
        exact .inr ⟨id, _, numCandidates, rfl, rfl, rfl⟩

/-- What a call leaves: a row changed or none, and then a job queued or none. -/
structure Effect (s s' : State) (change : Option (IndexingRequestId × RequestRow))
    (job : Option ReassessIndexingRequest) : Prop where
  rows : s'.requests.rows =
    change.elim s.requests.rows fun c => s.requests.rows.insert c.1 c.2
  jobs : s'.jobs = s.jobs ++ job.toList
  history : s'.history = s.history ++ (change.map fun c => Step.changed c.1).toList ++
    (job.map fun j => Step.queued j.indexingRequestId).toList

theorem Effect.refl (s : State) : Effect s s none none where
  rows := rfl
  jobs := by simp
  history := by simp

/-- The specification of a call: a job is queued only for the request it changed, and whenever the
registry's answer arrives and the queue takes the job; the id that it returns is a request's. -/
structure CallSpec (s : State) (registry queue : Answer)
    (result : Except ErrorObject (Option IndexingRequestId) × State)
    (change : Option (IndexingRequestId × RequestRow)) (job : Option ReassessIndexingRequest) :
    Prop where
  effect : Effect s result.2 change job
  ofChange : ∀ j, job = some j → ∃ row, change = some (j.indexingRequestId, row)
  delivered : registry ≠ .lost → queue ≠ .fail → ∀ c, change = some c →
    ∃ j, job = some j ∧ j.indexingRequestId = c.1
  known : ∀ id, result.1 = .ok (some id) → (result.2.requests.rows.lookup id).isSome = true

theorem callSpec_error (s : State) (registry queue : Answer) (e : ErrorObject) :
    CallSpec s registry queue (.error e, s) none none where
  effect := .refl s
  ofChange := nofun
  delivered _ _ := nofun
  known := nofun

theorem followUp_spec {s s1 : State} {job : IndexingRequestId → Nat → ReassessIndexingRequest}
    {row : RequestRow} {count : Nat} {queue : Answer}
    (hFollow : outcome.followUp numCandidates = (some id, some count))
    (hJob : (job id count).indexingRequestId = id) (hEffect : Effect s s1 (some (id, row)) none) :
    ∃ queued, CallSpec s .ok queue (followUp s1 job numCandidates outcome queue) (some (id, row))
      queued := by
  have hKnown : (s1.requests.rows.lookup id).isSome = true := by
    rw [hEffect.rows]
    simp
  have hQueued : Effect s (s1.queued (job id count)) (some (id, row)) (some (job id count)) := by
    refine ⟨hEffect.rows, ?_, ?_⟩
    · simp [State.queued, hEffect.jobs]
    · simp [State.queued, hEffect.history]
  have hChange : ∀ j, some (job id count) = some j →
      ∃ row', some (id, row) = some (j.indexingRequestId, row') := by
    rintro j hj
    cases hj
    exact ⟨row, by rw [hJob]⟩
  simp only [followUp, hFollow]
  cases queue with
  | ok =>
    refine ⟨some (job id count), hQueued, hChange, fun _ _ c hc => ?_, fun id' hId => ?_⟩
    · cases hc
      exact ⟨_, rfl, hJob⟩
    · cases hId
      exact hKnown
  | fail => exact ⟨none, hEffect, nofun, fun _ hQueue => absurd rfl hQueue, nofun⟩
  | lost =>
    refine ⟨some (job id count), hQueued, hChange, fun _ _ c hc => ?_, nofun⟩
    cases hc
    exact ⟨_, rfl, hJob⟩

theorem applyTarget_spec (signerChainId : Nat) (s : State) (key : RequestKey)
    (numCandidates : Nat) (newId : IndexingRequestId) (registry queue : Answer) :
    ∃ change job, CallSpec s registry queue
      (applyTarget signerChainId s key numCandidates newId registry queue) change job := by
  unfold applyTarget State.setTarget
  cases hSet : s.requests.setIndexingTargetCandidates key numCandidates newId with
  | none => cases registry <;> exact ⟨_, _, callSpec_error ..⟩
  | some x =>
    obtain ⟨outcome, t⟩ := x
    rcases RequestTable.set_cases hSet with ⟨rfl, hNone, found, hFollow, hKnown⟩ |
      ⟨id, row, count, hRows, hChanges, hFollow⟩
    · have hEffect : Effect s (s.commit outcome s.requests) none none := by
        refine ⟨rfl, ?_, ?_⟩ <;> simp [State.commit, hNone]
      cases registry with
      | fail => exact ⟨_, _, callSpec_error ..⟩
      | lost => exact ⟨none, none, hEffect, nofun, fun _ _ => nofun, nofun⟩
      | ok =>
        have hResult : ∀ s1 job, followUp s1 job numCandidates outcome queue = (.ok found, s1) := by
          intro s1 job
          simp only [followUp, hFollow]
        refine ⟨none, none, ?_⟩
        dsimp only
        rw [hResult]
        refine ⟨⟨?_, ?_, ?_⟩, nofun, fun _ _ => nofun, fun id hId => ?_⟩
        · simpa using hEffect.rows
        · simpa using hEffect.jobs
        · simpa using hEffect.history
        · simpa [State.commit] using hKnown id (Except.ok.inj hId)
    · have hEffect : Effect s (s.commit outcome t) (some (id, row)) none := by
        refine ⟨hRows, ?_, ?_⟩ <;> simp [State.commit, hChanges]
      cases registry with
      | fail => exact ⟨_, _, callSpec_error ..⟩
      | lost => exact ⟨some (id, row), none, hEffect, nofun, fun h => absurd rfl h, nofun⟩
      | ok =>
        refine ⟨some (id, row), followUp_spec hFollow rfl ⟨?_, ?_, ?_⟩⟩
        · simpa using hEffect.rows
        · simpa using hEffect.jobs
        · simpa using hEffect.history

theorem call_spec (ctx : Ctx Hash Signature) (s : State) (call : Call Signature) :
    ∃ change job, CallSpec s call.registry call.queue (setIndexingTargetCandidates ctx s call)
      change job := by
  unfold setIndexingTargetCandidates
  split
  · exact ⟨_, _, callSpec_error ..⟩
  · split
    · exact ⟨_, _, callSpec_error ..⟩
    · dsimp only
      split
      · exact applyTarget_spec ..
      · exact ⟨_, _, callSpec_error ..⟩

end Effects

section Messages

variable {Hash Signature : Type} {ctx : Ctx Hash Signature} {s : State}
  {m m' : SetIndexingTargetCandidates} {signature signature' : Signature}
  {newId : IndexingRequestId} {registry queue : Answer}

def emptyState : State := ⟨.empty, [], [], []⟩

/-- The signer of the message is not recovered, or not on the allowlist. -/
def Ctx.Refuses (ctx : Ctx Hash Signature) (req : SignedMessage Signature) : Prop :=
  ∀ signer, ctx.recoverSigner req = some signer → signer ∉ ctx.gatewayOperatorAllowlist

theorem effect_of_refused (h : ctx.Refuses ⟨m, signature⟩)
    (hSigner : ctx.recoverSigner ⟨m, signature⟩ = ctx.recoverSigner ⟨m', signature'⟩) :
    setIndexingTargetCandidates ctx s ⟨⟨m, signature⟩, newId, registry, queue⟩ =
      setIndexingTargetCandidates ctx s ⟨⟨m', signature'⟩, newId, registry, queue⟩ := by
  unfold setIndexingTargetCandidates
  dsimp only
  rw [← hSigner]
  cases hRecovered : ctx.recoverSigner ⟨m, signature⟩ with
  | none => rfl
  | some signer =>
    dsimp only
    rw [if_pos (h signer hRecovered), if_pos (h signer hRecovered)]

theorem effect_of_sameTarget (hSol : m.toSolStruct = m'.toSolStruct)
    (hSigner : ctx.recoverSigner ⟨m, signature⟩ = ctx.recoverSigner ⟨m', signature'⟩)
    (hTarget : ctx.numCandidates m = ctx.numCandidates m') :
    setIndexingTargetCandidates ctx s ⟨⟨m, signature⟩, newId, registry, queue⟩ =
      setIndexingTargetCandidates ctx s ⟨⟨m', signature'⟩, newId, registry, queue⟩ := by
  have hDeployment : m.deploymentId = m'.deploymentId := congrArg (·.deploymentId) hSol
  have hChain : m.chainId = m'.chainId := congrArg (·.chainId) hSol
  simp only [setIndexingTargetCandidates, hSigner, hDeployment, hChain, hTarget]

/-- Messages that are hashed the same ask for the same if both give a number of candidates or
neither does, or if the server's default is zero. -/
theorem numCandidates_eq (hSol : m.toSolStruct = m'.toSolStruct)
    (hCount : m.numCandidates.isSome = m'.numCandidates.isSome ∨ ctx.maxCandidates = 0) :
    ctx.numCandidates m = ctx.numCandidates m' := by
  have hGiven : m.numCandidates.getD 0 = m'.numCandidates.getD 0 :=
    congrArg (·.numCandidates) hSol
  unfold Ctx.numCandidates
  rcases hCount with hBoth | hZero
  · cases hm : m.numCandidates <;> cases hm' : m'.numCandidates <;> simp_all
  · rw [hZero, hGiven]

/-- Where there is no request yet, a message that leaves the number out is refused or makes one,
and one that asks for zero does neither. -/
theorem omitted_ne_zero {signer : Address} (hOmitted : m.numCandidates = none)
    (hZero : m'.numCandidates = some 0) (hDefault : ctx.maxCandidates ≠ 0)
    (hRecovered : ctx.recoverSigner ⟨m, signature⟩ = some signer)
    (hRecovered' : ctx.recoverSigner ⟨m', signature'⟩ = some signer)
    (hAllowed : signer ∈ ctx.gatewayOperatorAllowlist) :
    setIndexingTargetCandidates ctx emptyState ⟨⟨m, signature⟩, newId, .ok, .ok⟩ ≠
      setIndexingTargetCandidates ctx emptyState ⟨⟨m', signature'⟩, newId, .ok, .ok⟩ := by
  have hNone : ctx.numCandidates m' = 0 := by
    unfold Ctx.numCandidates
    rw [hZero]
    rfl
  obtain ⟨k, hSome⟩ : ∃ k, ctx.numCandidates m = k + 1 := by
    refine Nat.exists_eq_succ_of_ne_zero fun h => hDefault (UInt64.toNat_inj.mp ?_)
    simpa [Ctx.numCandidates, hOmitted] using h
  simp only [setIndexingTargetCandidates, hRecovered, hRecovered', hNone, hSome, hAllowed,
    not_true_eq_false, if_false]
  rw [if_pos (show 0 < 2 ^ 31 ∧ 0 ≤ maxNumCandidates from ⟨by decide, Nat.zero_le _⟩)]
  split
  · exact fun h => nomatch congrArg Prod.fst h
  · exact fun h => nomatch congrArg Prod.fst h

/-- Messages whose struct hashes are equal have the same effect for the same signer, whatever the
requests are and however the registry and the queue answer, if and only if both give a number of
candidates or neither does, or the server's default is zero, or the signer is refused. -/
theorem message_fixes_effect (hHash : Function.Injective ctx.structHash)
    (hSame : ctx.structHash m.toSolStruct = ctx.structHash m'.toSolStruct)
    (hSigner : ctx.recoverSigner ⟨m, signature⟩ = ctx.recoverSigner ⟨m', signature'⟩) :
    (∀ s newId registry queue,
      setIndexingTargetCandidates ctx s ⟨⟨m, signature⟩, newId, registry, queue⟩ =
        setIndexingTargetCandidates ctx s ⟨⟨m', signature'⟩, newId, registry, queue⟩) ↔
    m.numCandidates.isSome = m'.numCandidates.isSome ∨ ctx.maxCandidates = 0 ∨
      ctx.Refuses ⟨m, signature⟩ := by
  have hSol : m.toSolStruct = m'.toSolStruct := hHash hSame
  constructor
  · intro hEffect
    by_contra hNot
    obtain ⟨hCount, hDefault, hTaken⟩ := not_or.mp hNot |>.imp id not_or.mp
    obtain ⟨signer, hRecovered, hAllowed⟩ : ∃ signer,
        ctx.recoverSigner ⟨m, signature⟩ = some signer ∧ signer ∈ ctx.gatewayOperatorAllowlist := by
      simpa [Ctx.Refuses] using hTaken
    have hRecovered' := hSigner.symm.trans hRecovered
    have hGiven : m.numCandidates.getD 0 = m'.numCandidates.getD 0 :=
      congrArg (·.numCandidates) hSol
    -- One of the two leaves the number out; the other is hashed as it is, so it gives zero.
    cases hm : m.numCandidates <;> cases hm' : m'.numCandidates <;> rw [hm, hm'] at hCount hGiven
    · exact hCount rfl
    · exact omitted_ne_zero hm (hm'.trans (congrArg some hGiven.symm)) hDefault hRecovered
        hRecovered' hAllowed (hEffect emptyState 1 .ok .ok)
    · exact omitted_ne_zero hm' (hm.trans (congrArg some hGiven)) hDefault hRecovered' hRecovered
        hAllowed (hEffect emptyState 1 .ok .ok).symm
    · exact hCount rfl
  · rintro (hCount | hDefault | hRefused) s newId registry queue
    · exact effect_of_sameTarget hSol hSigner (numCandidates_eq hSol (.inl hCount))
    · exact effect_of_sameTarget hSol hSigner (numCandidates_eq hSol (.inr hDefault))
    · exact effect_of_refused hRefused hSigner

/-- A server that takes every message for operator 7's, with the struct as its own hash. -/
def sampleCtx (maxCandidates : UInt64) : Ctx SetIndexingTargetCandidatesSol Unit where
  structHash m := m
  recover _ _ := some 7
  signerChainId := 1
  gatewayOperatorAllowlist := [7]
  maxCandidates := maxCandidates

def sampleCall (numCandidates : Option UInt64) (newId : IndexingRequestId) (queue : Answer) :
    Call Unit :=
  ⟨⟨⟨"Qm", 1, numCandidates⟩, ()⟩, newId, .ok, queue⟩

theorem message_fixes_effect_default_zero :
    setIndexingTargetCandidates (sampleCtx 0) emptyState (sampleCall none 1 .ok) =
      setIndexingTargetCandidates (sampleCtx 0) emptyState (sampleCall (some 0) 1 .ok) :=
  (message_fixes_effect (fun _ _ h => h) rfl rfl).mpr (.inr (.inl rfl)) emptyState 1 .ok .ok

/-- A message that leaves the number out is hashed as one that asks for zero: the operator who set
a target of three signs the one, and the other, with the same signature, cancels the request. -/
theorem omitted_count_turned_into_cancel :
    let ctx := sampleCtx 3
    let s := runCalls ctx emptyState [sampleCall (some 3) 1 .ok]
    let omitted := sampleCall none 2 .ok
    let zero := sampleCall (some 0) 2 .ok
    ctx.structHash omitted.request.message.toSolStruct =
        ctx.structHash zero.request.message.toSolStruct ∧
      Function.Injective ctx.structHash ∧
      ctx.recoverSigner omitted.request = ctx.recoverSigner zero.request ∧
      (((setIndexingTargetCandidates ctx s omitted).2.requests.rows.lookup 1).map
        (·.status)) = some .opened ∧
      (((setIndexingTargetCandidates ctx s zero).2.requests.rows.lookup 1).map
        (·.status)) = some .canceled := by
  refine ⟨rfl, fun _ _ h => h, rfl, ?_, ?_⟩ <;> decide +kernel

end Messages

section Targets

variable {Hash Signature : Type} {ctx : Ctx Hash Signature} {s : State} {l : List Step}
  {id id' : IndexingRequestId}

/-- A reassessment of the request has been queued since its row last changed. -/
def ActedOn (history : List Step) (id : IndexingRequestId) : Prop :=
  Step.queued id ∈ history.reverse.takeWhile (· ≠ .changed id)

instance (history : List Step) (id : IndexingRequestId) : Decidable (ActedOn history id) :=
  inferInstanceAs (Decidable (_ ∈ _))

theorem ActedOn.changed (h : ActedOn l id) (hNe : id' ≠ id) :
    ActedOn (l ++ [.changed id']) id := by
  unfold ActedOn at h ⊢
  rw [List.reverse_append, List.reverse_singleton, List.singleton_append, List.takeWhile_cons,
    if_pos (by simpa using hNe)]
  exact List.mem_cons_of_mem _ h

theorem ActedOn.queued (h : ActedOn l id) : ActedOn (l ++ [.queued id']) id := by
  unfold ActedOn at h ⊢
  rw [List.reverse_append, List.reverse_singleton, List.singleton_append, List.takeWhile_cons,
    if_pos (by simp)]
  exact List.mem_cons_of_mem _ h

theorem actedOn_queued : ActedOn (l ++ [.queued id]) id := by
  unfold ActedOn
  rw [List.reverse_append, List.reverse_singleton, List.singleton_append, List.takeWhile_cons,
    if_pos (by simp)]
  exact List.mem_cons_self

def AllActedOn (s : State) : Prop :=
  ∀ id, (s.requests.rows.lookup id).isSome = true → ActedOn s.history id

/-- The answer of the call's transaction arrives and the queue takes its job. -/
def Call.Delivered (call : Call Signature) : Prop := call.registry ≠ .lost ∧ call.queue ≠ .fail

theorem allActedOn_of_call {call : Call Signature} (hs : AllActedOn s) (hCall : call.Delivered) :
    AllActedOn (setIndexingTargetCandidates ctx s call).2 := by
  obtain ⟨change, job, hSpec⟩ := call_spec ctx s call
  intro id hRow
  rw [hSpec.effect.rows] at hRow
  rw [hSpec.effect.history]
  cases change with
  | none =>
    cases job with
    | none => simpa using hs id hRow
    | some j =>
      obtain ⟨row, hChange⟩ := hSpec.ofChange j rfl
      cases hChange
  | some c =>
    obtain ⟨j, rfl, hId⟩ := hSpec.delivered hCall.1 hCall.2 c rfl
    change ActedOn (s.history ++ [.changed c.1] ++ [.queued j.indexingRequestId]) id
    by_cases hEq : id = c.1
    · rw [hId, hEq]
      exact actedOn_queued
    · refine ((hs id ?_).changed (Ne.symm hEq)).queued
      simpa [lookup_insert_eq_ite, hEq] using hRow

theorem allActedOn_of_calls {calls : List (Call Signature)} (hs : AllActedOn s)
    (hCalls : ∀ call ∈ calls, call.Delivered) : AllActedOn (runCalls ctx s calls) := by
  induction calls generalizing s with
  | nil => exact hs
  | cons call calls ih =>
    refine ih (allActedOn_of_call hs (hCalls call (by simp))) fun call' hMem => ?_
    exact hCalls call' (by simp [hMem])

/-- After any sequence of calls whose transactions answer and whose jobs the queue takes, a call
that returns a request's id has queued a reassessment of it, or one was queued since its row last
changed. -/
theorem target_acted_on {calls : List (Call Signature)} {call : Call Signature}
    (hStart : AllActedOn s) (hCalls : ∀ call ∈ calls, call.Delivered) (hCall : call.Delivered)
    (hOk : (setIndexingTargetCandidates ctx (runCalls ctx s calls) call).1 = .ok (some id)) :
    ActedOn (setIndexingTargetCandidates ctx (runCalls ctx s calls) call).2.history id := by
  obtain ⟨change, job, hSpec⟩ := call_spec ctx (runCalls ctx s calls) call
  exact allActedOn_of_call (allActedOn_of_calls hStart hCalls) hCall id (hSpec.known id hOk)

theorem target_acted_on_twice :
    (setIndexingTargetCandidates (sampleCtx 3)
      (runCalls (sampleCtx 3) emptyState [sampleCall (some 2) 1 .ok])
      (sampleCall (some 5) 2 .ok)).1 = .ok (some 1) ∧
    ActedOn (setIndexingTargetCandidates (sampleCtx 3)
      (runCalls (sampleCtx 3) emptyState [sampleCall (some 2) 1 .ok])
      (sampleCall (some 5) 2 .ok)).2.history 1 := by
  have hOk : (setIndexingTargetCandidates (sampleCtx 3)
      (runCalls (sampleCtx 3) emptyState [sampleCall (some 2) 1 .ok])
      (sampleCall (some 5) 2 .ok)).1 = .ok (some 1) := by decide +kernel
  refine ⟨hOk, target_acted_on nofun ?_ ⟨nofun, nofun⟩ hOk⟩
  intro call hMem
  cases List.mem_singleton.mp hMem
  exact ⟨nofun, nofun⟩

/-- The queue fails to take the job of a new request; the operator makes the same call again, and
it returns the request's id though no reassessment was ever queued. -/
theorem retried_call_queues_nothing :
    let ctx := sampleCtx 3
    let s := runCalls ctx emptyState [sampleCall (some 2) 1 .fail]
    let retried := setIndexingTargetCandidates ctx s (sampleCall (some 2) 2 .ok)
    (setIndexingTargetCandidates ctx emptyState (sampleCall (some 2) 1 .fail)).1 =
        .error ⟨500, "Internal server error"⟩ ∧
      retried.1 = .ok (some 1) ∧ retried.2.jobs = [] ∧ ¬ ActedOn retried.2.history 1 := by
  decide +kernel

end Targets

section Moves

variable {Hash Signature : Type} {config : Config}

/-- The services see the table's requests. -/
def Agrees (s : State) (w : World) : Prop :=
  ∀ id, w.requests.lookup id = (s.requests.rows.lookup id).map (·.toIndexingRequest)

end Moves

end Dipper.Admin
