import Dipper.ChainClient.Contracts
import Dipper.Concurrent.Observed
import Dipper.Concurrent.Trace

/-! Views follow the blocks dipper has seen: one that starts after a wait for a receipt has reported
a transaction mined is answered at the receipt's block or a later one, and once the newest block
seen is confirmed it never goes back.  The client is run with a record of what the endpoints'
answers tell, and a call with any moves of the rest of the client between its operations. -/

namespace Dipper

namespace AlloyClient

open Concurrent

variable {s s' : ClientState}

theorem ClientEffect.follows {o : ClientOp} (h : ClientEffect s s' o) :
    s.seenBlock.Follows s'.seenBlock := by
  cases o with
  | crossCheckDue =>
    obtain rfl := h
    exact SeenBlock.follows_crossCheckDue
  | advance block onlyEndpoint =>
    obtain rfl := h
    exact SeenBlock.follows_advance onlyEndpoint
  | confirm source block =>
    obtain rfl := h
    exact SeenBlock.follows_confirm
  | getPendingCount endpoint =>
    rcases h with rfl | ⟨n, rfl⟩ <;> exact .refl _
  | lockSubmit task | unlockSubmit task reported =>
    obtain ⟨-, rfl⟩ := h
    exact .refl _
  | sendRawTransaction endpoint tx =>
    obtain ⟨taken, rfl⟩ := h
    exact .refl _
  | _ =>
    obtain rfl := h
    exact .refl _

/-- What an endpoint's answer tells: a transaction's receipt, or an agreement's state at a block. -/
inductive Told : Type
  | receipt (hash : TxHash) (r : Receipt)
  | details (id : IndexingAgreementId) (block : Nat) (state : UInt16)
  deriving DecidableEq, Repr

def tells (_ : ClientState) : (o : ClientOp) → ClientRes o → ClientState → List Told
  | .getTransactionReceipt _ hash, (r : Except TransportError (Option Receipt)), _ =>
    match r with
    | .ok (some r) => [.receipt hash r]
    | _ => []
  | .getAgreementDetails _ id block, (r : Except TransportError (Option UInt16)), _ =>
    match r with
    | .ok (some state) => [.details id block state]
    | _ => []
  | _, _, _ => []

abbrev recordedClient (config : ClientConfig) :=
  (client config fun _ _ _ _ => True).observed tells

abbrev Recorded : Type := ClientState × List Told

/-- What any tasks and the world outside may have done meanwhile. -/
def Meanwhile (config : ClientConfig) (x x' : Recorded) : Prop :=
  ∃ l l', (recordedClient config).Run (x, l) (x', l')

abbrev Called {α : Type} (config : ClientConfig) (p : ClientAct α) (x : Recorded)
    (tr : List (Action Recorded ClientOp)) (a : α) (x' : Recorded) : Prop :=
  p.Runs (fun x o r x' => ∃ t, (recordedClient config).Performs t x o r x') (Meanwhile config) x tr
    (some a) x'

/-- What the endpoint asked in a step of a call told. -/
def Tells (e : Action Recorded ClientOp) (told : Told) : Prop := e.after.2 = e.before.2 ++ [told]

/-- A block is not beyond the believable limit. -/
def ClientState.Believes (s : ClientState) (block : Nat) : Prop :=
  s.seenBlock.confirmed = true → block ≤ s.seenBlock.believableLimit s.now

/-- The call was told that a transaction is mined in a block, which it could believe from then on. -/
def ToldMined (hash : TxHash) (block : Nat) (tr : List (Action Recorded ClientOp)) : Prop :=
  ∃ before e after status, tr = before ++ e :: after ∧
    Tells e (.receipt hash ⟨some block, status⟩) ∧ ∀ e' ∈ after, e'.before.1.Believes block

section Meanwhile

variable {config : ClientConfig} {x x' x'' : Recorded}

theorem meanwhile_refl (x : Recorded) : Meanwhile config x x := ⟨[], [], .refl⟩

theorem follows_of_performs {t : TaskId} {o : ClientOp} {r : ClientRes o}
    (h : (recordedClient config).Performs t x o r x') : x.1.seenBlock.Follows x'.1.seenBlock :=
  (effect_of_performs (System.observed_performs h).1).follows

theorem Meanwhile.follows (h : Meanwhile config x x') :
    x.1.seenBlock.Follows x'.1.seenBlock := by
  obtain ⟨l, l', hRun⟩ := h
  refine System.relates_of_run (R := fun x x' : Recorded => x.1.seenBlock.Follows x'.1.seenBlock)
    (fun _ => .refl _) SeenBlock.Follows.trans follows_of_performs (fun hEnv => ?_) hRun
  rcases move_cases (System.observed_env hEnv).1 with ⟨now, -, hEq⟩ | ⟨head, -, hEq⟩
  · rw [hEq]
    exact .refl _
  · rw [hEq]
    exact .refl _

end Meanwhile

section Calls

variable {α β : Type} {config : ClientConfig} {x x' : Recorded}
  {tr tr' : List (Action Recorded ClientOp)}

theorem called_bind {p : ClientAct α} {f : α → ClientAct β} {b : β}
    (h : Called config (p >>= f) x tr b x') : ∃ a tr1 tr2 x1, Called config p x tr1 a x1 ∧
      Called config (f a) x1 tr2 b x' ∧ tr = tr1 ++ tr2 :=
  Prog.runs_bind meanwhile_refl h

theorem called_pure {a b : α} (h : Called config (pure a) x tr b x') :
    b = a ∧ tr = [] ∧ Meanwhile config x x' := Prog.runs_pure h

theorem called_ask {o : ClientOp} {r : ClientRes o} (h : Called config (ask o) x tr r x') :
    ∃ t e, (recordedClient config).Performs t e.before o r e.after ∧ e.op = o ∧ tr = [e] ∧
      Meanwhile config x e.before ∧ Meanwhile config e.after x' := by
  obtain ⟨x1, x2, hBefore, ⟨t, hPerforms⟩, hAfter, rfl⟩ := Prog.runs_perform h
  exact ⟨t, ⟨x1, o, x2⟩, hPerforms, rfl, rfl, hBefore, hAfter⟩

theorem Called.follows {p : ClientAct α} {a : α} (h : Called config p x tr a x') :
    x.1.seenBlock.Follows x'.1.seenBlock := by
  refine Prog.Runs.reached (R := fun x x' : Recorded => x.1.seenBlock.Follows x'.1.seenBlock)
    (fun _ _ _ => SeenBlock.Follows.trans) (fun _ _ => Meanwhile.follows) h fun e he => ?_
  obtain ⟨r, t, hPerforms⟩ := h.performed e he
  exact follows_of_performs hPerforms

/-- The steps of a call in which no endpoint told anything. -/
def Silent (tr : List (Action Recorded ClientOp)) : Prop := ∀ e ∈ tr, e.after.2 = e.before.2

theorem Silent.append (h : Silent tr) (h' : Silent tr') : Silent (tr ++ tr') := by
  intro e he
  rcases List.mem_append.mp he with he | he
  · exact h e he
  · exact h' e he

theorem silent_nil : Silent [] := fun _ he => absurd he List.not_mem_nil

theorem Tells.not_silent {e : Action Recorded ClientOp} {told : Told} (h : Tells e told) :
    e.after.2 ≠ e.before.2 := by
  intro hSame
  have hLength := congrArg List.length (h.symm.trans hSame)
  simp at hLength

def ClientOp.TellsNothing : ClientOp → Prop
  | .getTransactionReceipt .. | .getAgreementDetails .. => False
  | _ => True

theorem silent_of_onlyOps {p : ClientAct α} (hp : p.OnlyOps ClientOp.TellsNothing) {a : α}
    (h : Called config p x tr a x') : Silent tr := by
  intro e he
  obtain ⟨r, t, hPerforms⟩ := h.performed e he
  have hOp := Prog.Runs.onlyOps hp h e he
  obtain ⟨-, hTold⟩ := System.observed_performs hPerforms
  rw [hTold]
  generalize e.op = o at hOp r
  cases o <;> first | exact List.append_nil _ | exact hOp.elim

theorem silent_ask {o : ClientOp} {r : ClientRes o} (h : Called config (ask o) x tr r x')
    (ho : o.TellsNothing) : Silent tr := silent_of_onlyOps (.perform ho) h

theorem tellsNothing_of_ofPool (o : ClientOp) (h : o.ofPool) : o.TellsNothing := by
  cases o <;> trivial

theorem tellsNothing_of_ofHeads (o : ClientOp) (h : o.ofHeads) : o.TellsNothing := by
  cases o <;> trivial

theorem tellsNothing_of_ofChecks (o : ClientOp) (h : o.ofChecks) : o.TellsNothing := by
  cases o <;> trivial

end Calls

section Pool

variable {β : Type} {config : ClientConfig} {x x' : Recorded}
  {tr tr1 tr2 : List (Action Recorded ClientOp)} {f : Nat → ClientAct (Except TransportError β)}

/-- An answer of the pool is an endpoint's, and until then the endpoints told nothing. -/
def Answered (config : ClientConfig) (f : Nat → ClientAct (Except TransportError β)) {ε : Type}
    (tr : List (Action Recorded ClientOp)) : Except ε β → Prop
  | .ok value => ∃ before last position x1 x2, tr = before ++ last ∧ Silent before ∧
    Called config (f position) x1 last (.ok value) x2
  | .error _ => Silent tr

theorem Answered.after {ε : Type} {r : Except ε β} (hBefore : Silent tr1)
    (h : Answered config f tr2 r) : Answered config f (tr1 ++ tr2) r := by
  cases r with
  | error e => exact hBefore.append h
  | ok value =>
    obtain ⟨before, last, position, x1, x2, rfl, hSilent, hLast⟩ := h
    exact ⟨tr1 ++ before, last, position, x1, x2, (List.append_assoc _ _ _).symm,
      hBefore.append hSilent, hLast⟩

variable (hf : ∀ {position x tr e x'}, Called config (f position) x tr (.error e) x' → Silent tr)
include hf

theorem answered_askEndpoint {position left lagged : Nat} {r : Except TransportError β}
    (h : Called config (askEndpoint config f position left lagged) x tr r x') :
    Answered config f tr r := by
  have hStops : ∀ {r r' : Except TransportError β} {x x1 x' : Recorded}
      {tr1 tr2 : List (Action Recorded ClientOp)}, Called config (f position) x tr1 r' x1 →
      Called config (pure r') x1 tr2 r x' → Answered config f (tr1 ++ tr2) r := by
    intro r r' x x1 x' tr1 tr2 h1 h2
    obtain ⟨rfl, rfl, -⟩ := called_pure h2
    rw [List.append_nil]
    cases r with
    | ok value => exact ⟨[], tr1, position, x, x1, rfl, silent_nil, h1⟩
    | error e => exact hf h1
  have hSleep : ∀ {duration : Nat} {x x1 : Recorded} {tr : List (Action Recorded ClientOp)},
      Called config (sleep duration) x tr () x1 → Silent tr :=
    silent_of_onlyOps (onlyOps_sleep tellsNothing_of_ofPool _)
  induction left generalizing lagged x tr with
  | zero =>
    unfold askEndpoint at h
    obtain ⟨r1, tr1, tr2, x1, h1, h2, rfl⟩ := called_bind h
    cases r1 <;> exact hStops h1 h2
  | succ left ih =>
    unfold askEndpoint at h
    obtain ⟨r1, tr1, tr2, x1, h1, h2, rfl⟩ := called_bind h
    cases r1 with
    | ok value => exact hStops h1 h2
    | error e =>
      dsimp only at h2
      split at h2
      · obtain ⟨_, tr3, tr4, x2, h3, h4, rfl⟩ := called_bind h2
        exact .after (hf h1) (.after (hSleep h3) (ih h4))
      · split at h2
        · obtain ⟨_, tr3, tr4, x2, h3, h4, rfl⟩ := called_bind h2
          exact .after (hf h1) (.after (hSleep h3) (ih h4))
        · exact hStops h1 h2

theorem answered_walkEndpoints {operation : String} {start left : Nat}
    {failures : List (Nat × TransportError)} {r : Except ClientError β}
    (h : Called config (walkEndpoints config operation f start left failures) x tr r x') :
    Answered config f tr r := by
  have hStops : ∀ {value : β} {r : Except ClientError β} {x1 x' : Recorded}
      {tr1 tr2 : List (Action Recorded ClientOp)},
      Answered (ε := TransportError) config f tr1 (.ok value) →
      Called config (pure (.ok value)) x1 tr2 r x' → Answered config f (tr1 ++ tr2) r := by
    intro value r x1 x' tr1 tr2 h1 h2
    obtain ⟨rfl, rfl, -⟩ := called_pure h2
    rw [List.append_nil]
    exact h1
  induction left generalizing failures x tr with
  | zero =>
    unfold walkEndpoints at h
    obtain ⟨r1, tr1, tr2, x1, h1, h2, rfl⟩ := called_bind h
    have hAsked := answered_askEndpoint hf h1
    cases r1 with
    | ok value => exact hStops hAsked h2
    | error e =>
      obtain ⟨rfl, rfl, -⟩ := called_pure h2
      exact hAsked.append silent_nil
  | succ left ih =>
    unfold walkEndpoints at h
    obtain ⟨r1, tr1, tr2, x1, h1, h2, rfl⟩ := called_bind h
    have hAsked := answered_askEndpoint hf h1
    cases r1 with
    | ok value => exact hStops hAsked h2
    | error e =>
      obtain ⟨_, tr3, tr4, x2, h3, h4, rfl⟩ := called_bind h2
      exact .after hAsked (.after (silent_ask h3 trivial) (ih h4))

theorem answered_executeWithEndpoint {operation : String} {r : Except ClientError β}
    (h : Called config (executeWithEndpoint config operation f) x tr r x') :
    Answered config f tr r := by
  obtain ⟨start, tr1, tr2, x1, h1, h2, rfl⟩ := called_bind h
  exact .after (silent_ask h1 trivial) (answered_walkEndpoints hf h2)

end Pool

section Waits

variable {config : ClientConfig} {x x' : Recorded} {tr : List (Action Recorded ClientOp)}

/-- The chain is known to have reached a block. -/
def ClientState.Saw (s : ClientState) (block : Nat) : Prop :=
  s.seenBlock.confirmed = true ∧ block ≤ s.seenBlock.number

theorem ClientState.Saw.follows {block : Nat} (h : s.Saw block)
    (hFollows : s.seenBlock.Follows s'.seenBlock) : s'.Saw block := by
  obtain ⟨hConfirmed, hLe⟩ := hFollows h.1
  exact ⟨hConfirmed, Nat.le_trans h.2 hLe⟩

theorem saw_of_confirmReceipt {r : Receipt} {block : Nat} (hBlock : r.blockNumber = some block)
    (hBelieves : ∀ e ∈ tr, e.before.1.Believes block)
    (h : Called config (confirmReceipt r) x tr () x') : x'.1.Saw block := by
  unfold confirmReceipt at h
  rw [hBlock] at h
  obtain ⟨t, e, hPerforms, -, rfl, -, hAfter⟩ := called_ask h
  have hEffect := effect_of_performs (System.observed_performs hPerforms).1
  have hReached := SeenBlock.confirm_reaches (hBelieves e (List.mem_singleton_self e))
  have hHere : e.after.1.Saw block := by
    unfold ClientState.Saw
    rw [hEffect]
    exact hReached
  exact hHere.follows hAfter.follows

theorem silent_confirmReceipt {r : Receipt} (h : Called config (confirmReceipt r) x tr () x') :
    Silent tr := by
  refine silent_of_onlyOps ?_ h
  unfold confirmReceipt
  split
  · exact .perform trivial
  · exact .pure _

/-- A question to one endpoint, which tells what it returns, or nothing. -/
def Asked {β : Type} (told : β → Told) (tr : List (Action Recorded ClientOp)) :
    Except TransportError (Option β) → Prop
  | .ok (some value) => ∃ e, tr = [e] ∧ Tells e (told value)
  | _ => Silent tr

theorem told_getTransactionReceipt {endpoint : Nat} {hash : TxHash}
    {r : Except TransportError (Option Receipt)}
    (h : Called config (ask (.getTransactionReceipt endpoint hash)) x tr r x') :
    Asked (.receipt hash) tr r := by
  obtain ⟨t, e, hPerforms, hOp, rfl, -, -⟩ := called_ask h
  obtain ⟨-, hTold⟩ := System.observed_performs hPerforms
  match r with
  | .ok (some receipt) => exact ⟨e, rfl, hTold⟩
  | .ok none | .error _ =>
    intro e' he'
    rw [List.mem_singleton.mp he', hTold]
    exact List.append_nil _

/-- A wait that reports a transaction mined was told so by the last endpoint it asked, and takes the
receipt's block; by induction on the polls left. -/
theorem told_pollReceipt {hash : TxHash} {deadline polls : Nat} {checked success : Bool}
    (h : Called config (pollReceipt config hash deadline polls checked) x tr (.mined success) x') :
    ∃ before e after r x1 x2, tr = before ++ e :: after ∧ Silent before ∧
      Tells e (.receipt hash r) ∧ Called config (confirmReceipt r) x1 after () x2 ∧
      Meanwhile config x2 x' := by
  induction polls generalizing checked x tr with
  | zero => cases (called_pure h).1
  | succ polls ih =>
    unfold pollReceipt at h
    obtain ⟨answer, tr1, tr2, x1, h1, h2, rfl⟩ := called_bind h
    have hAnswered := answered_executeWithEndpoint (fun h => told_getTransactionReceipt h) h1
    have hAgain : ∀ {checked : Bool}, Silent tr1 → Called config (do
          if deadline ≤ (← instant) then return .notSeen checked
          sleep receiptPollInterval
          pollReceipt config hash deadline polls checked : ClientAct ReceiptWait) x1 tr2
          (.mined success) x' →
        ∃ before e after r x1 x2, tr1 ++ tr2 = before ++ e :: after ∧ Silent before ∧
          Tells e (.receipt hash r) ∧ Called config (confirmReceipt r) x1 after () x2 ∧
          Meanwhile config x2 x' := by
      intro checked hSilent1 h2
      obtain ⟨now, tr3, tr4, x2, h3, h4, rfl⟩ := called_bind h2
      split at h4
      · cases (called_pure h4).1
      · obtain ⟨_, tr5, tr6, x3, h5, h6, rfl⟩ := called_bind h4
        obtain ⟨before, e, after, r, y1, y2, rfl, hSilent, hRest⟩ := ih h6
        have hSilent3 : Silent tr3 := silent_ask h3 trivial
        have hSilent5 : Silent tr5 :=
          silent_of_onlyOps (onlyOps_sleep tellsNothing_of_ofPool _) h5
        refine ⟨tr1 ++ (tr3 ++ (tr5 ++ before)), e, after, r, y1, y2, by simp, ?_, hRest⟩
        exact hSilent1.append (hSilent3.append (hSilent5.append hSilent))
    cases answer with
    | error e => exact hAgain hAnswered h2
    | ok found =>
      obtain ⟨before, last, position, y1, y2, rfl, hSilent, hLast⟩ := hAnswered
      cases found with
      | none => exact hAgain (hSilent.append (told_getTransactionReceipt hLast)) h2
      | some r =>
        obtain ⟨e, rfl, hTells⟩ := told_getTransactionReceipt hLast
        obtain ⟨_, tr3, tr4, x2, h3, h4, rfl⟩ := called_bind h2
        obtain ⟨-, rfl, hAfter⟩ := called_pure h4
        exact ⟨before, e, tr3, r, x1, x2, by simp, hSilent, hTells, h3, hAfter⟩

/-- Where only one step of a call told something, a step that told something is that one. -/
theorem eq_of_silent {before after before' after' : List (Action Recorded ClientOp)}
    {e e' : Action Recorded ClientOp} (h : before ++ e :: after = before' ++ e' :: after')
    (hBefore : Silent before) (hAfter : Silent after) (he' : e'.after.2 ≠ e'.before.2) :
    e' = e ∧ after' = after := by
  rcases List.append_eq_append_iff.mp h with ⟨mid, rfl, hRest⟩ | ⟨mid, rfl, hRest⟩
  · cases mid with
    | nil =>
      obtain ⟨rfl, rfl⟩ := List.cons.inj hRest
      exact ⟨rfl, rfl⟩
    | cons e0 mid =>
      obtain ⟨rfl, rfl⟩ := List.cons.inj hRest
      exact absurd (hAfter e' (List.mem_append_right _ List.mem_cons_self)) he'
  · cases mid with
    | nil =>
      obtain ⟨rfl, rfl⟩ := List.cons.inj hRest
      exact ⟨rfl, rfl⟩
    | cons e0 mid =>
      obtain ⟨rfl, rfl⟩ := List.cons.inj hRest
      exact absurd (hBefore e' (List.mem_append_right _ List.mem_cons_self)) he'

/-- Once a wait has reported a transaction mined in a block it could believe, the chain is known to
have reached that block. -/
theorem saw_of_waitForReceipt {hash : TxHash} {timeout block : Nat} {success : Bool}
    (h : Called config (waitForReceipt config hash timeout) x tr (.mined success) x')
    (hTold : ToldMined hash block tr) : x'.1.Saw block := by
  obtain ⟨now, tr1, tr2, x1, h1, h2, rfl⟩ := called_bind h
  have hSilent1 : Silent tr1 := silent_ask h1 trivial
  obtain ⟨before, e, after, r, y1, y2, rfl, hSilent, hTells, hConfirm, hLater⟩ := told_pollReceipt h2
  obtain ⟨before', e', after', status, hSplit, hTells', hBelieves⟩ := hTold
  rw [← List.append_assoc] at hSplit
  obtain ⟨rfl, rfl⟩ := eq_of_silent hSplit (hSilent1.append hSilent)
    (silent_confirmReceipt hConfirm) hTells'.not_silent
  have hReceipt : r = ⟨some block, status⟩ := by
    have hSame := List.append_cancel_left (hTells.symm.trans hTells')
    injection hSame with hSame
    injection hSame
  have hBlock : r.blockNumber = some block := by rw [hReceipt]
  exact (saw_of_confirmReceipt hBlock hBelieves hConfirm).follows hLater.follows

end Waits

section Views

variable {config : ClientConfig} {x x' : Recorded} {tr : List (Action Recorded ClientOp)}
  {id : IndexingAgreementId}

theorem told_getAgreementDetails {endpoint block : Nat}
    {r : Except TransportError (Option UInt16)}
    (h : Called config (ask (.getAgreementDetails endpoint id block)) x tr r x') :
    Asked (.details id block) tr r := by
  obtain ⟨t, e, hPerforms, hOp, rfl, -, -⟩ := called_ask h
  obtain ⟨-, hTold⟩ := System.observed_performs hPerforms
  match r with
  | .ok (some state) => exact ⟨e, rfl, hTold⟩
  | .ok none | .error _ =>
    intro e' he'
    rw [List.mem_singleton.mp he', hTold]
    exact List.append_nil _

theorem told_readAt {endpoint head seen highest : Nat} {r : Except TransportError (Option UInt16)}
    (h : Called config (readAt id endpoint head seen highest) x tr r x') :
    Asked (.details id head) tr r := by
  unfold readAt at h
  split at h
  · obtain ⟨rfl, rfl, -⟩ := called_pure h
    exact silent_nil
  · split at h
    · obtain ⟨rfl, rfl, -⟩ := called_pure h
      exact silent_nil
    · exact told_getAgreementDetails h

/-- An attempt that fails was told nothing, and one that is answered was told the state it returns at
the block it returns. -/
theorem told_viewEndpoint {seen highest endpoint : Nat}
    {r : Except TransportError (Nat × Option UInt16)}
    (h : Called config (viewEndpoint id seen highest endpoint) x tr r x') :
    (∀ head state, r = .ok (head, some state) → ∃ e ∈ tr, Tells e (.details id head state)) ∧
      ∀ e, r = .error e → Silent tr := by
  obtain ⟨r1, tr1, tr2, x1, h1, h2, rfl⟩ := called_bind h
  have hLatest : Silent tr1 :=
    silent_of_onlyOps ((onlyOps_latest endpoint seen).mono tellsNothing_of_ofHeads) h1
  cases r1 with
  | error e =>
    obtain ⟨rfl, rfl, -⟩ := called_pure h2
    exact ⟨nofun, fun _ _ => hLatest.append silent_nil⟩
  | ok head =>
    obtain ⟨r2, tr3, tr4, x2, h3, h4, rfl⟩ := called_bind h2
    have hRead := told_readAt h3
    cases r2 with
    | error e =>
      obtain ⟨_, tr5, tr6, x3, h5, h6, rfl⟩ := called_bind h4
      obtain ⟨rfl, rfl, -⟩ := called_pure h6
      have hForget : Silent tr5 := silent_ask h5 trivial
      exact ⟨nofun, fun _ _ => hLatest.append (hRead.append (hForget.append silent_nil))⟩
    | ok output =>
      obtain ⟨rfl, -, -⟩ := called_pure h4
      refine ⟨?_, nofun⟩
      rintro _ state ⟨⟩
      obtain ⟨e, rfl, hTells⟩ := hRead
      exact ⟨e, by simp, hTells⟩

/-- The state of an agreement is asked for at this block or a later one. -/
def ClientOp.NotBefore (block : Nat) : ClientOp → Prop
  | .getAgreementDetails _ _ asked => block ≤ asked
  | _ => True

theorem notBefore_of_ofPool {block : Nat} (o : ClientOp) (h : o.ofPool) : o.NotBefore block := by
  cases o <;> trivial

theorem notBefore_of_tellsNothing {block : Nat} (o : ClientOp) (h : o.TellsNothing) :
    o.NotBefore block := by
  cases o <;> trivial

theorem notBefore_viewEndpoint {seen highest endpoint : Nat} :
    (viewEndpoint id seen highest endpoint).OnlyOps (ClientOp.NotBefore seen) := by
  refine ((onlyOps_latest endpoint seen).mono fun o ho => notBefore_of_tellsNothing o
    (tellsNothing_of_ofHeads o ho)).bind fun r => ?_
  cases r with
  | error e => exact .pure _
  | ok head =>
    have hRead : (readAt id endpoint head seen highest).OnlyOps (ClientOp.NotBefore seen) := by
      unfold readAt refuseBehind
      by_cases hBehind : seen ≤ head
      · rw [if_pos hBehind]
        dsimp only
        split
        · exact .pure _
        · exact .perform hBehind
      · rw [if_neg hBehind]
        exact .pure _
    refine hRead.bind fun r => ?_
    cases r with
    | error e => exact .ask trivial fun _ => .pure _
    | ok output => exact .pure _

theorem notBefore_of_tells {α : Type} {p : ClientAct α} {a : α} {block : Nat}
    (hp : p.OnlyOps (ClientOp.NotBefore block)) (h : Called config p x tr a x')
    {e : Action Recorded ClientOp} (he : e ∈ tr) {told : Nat} {state : UInt16}
    (hTells : Tells e (.details id told state)) : block ≤ told := by
  have hOp := Prog.Runs.onlyOps hp h e he
  obtain ⟨r, t, hPerforms⟩ := h.performed e he
  obtain ⟨-, hTold⟩ := System.observed_performs hPerforms
  have hSame : tells e.before.1 e.op r e.after.1 = [.details id told state] :=
    List.append_cancel_left (hTold.symm.trans hTells)
  generalize e.op = o at hOp r hSame
  cases o with
  | getAgreementDetails endpoint asked block' =>
    change Except TransportError (Option UInt16) at r
    match r, hSame with
    | .ok (some _), hSame =>
      injection hSame with hSame
      injection hSame with _ hBlock
      rwa [← hBlock]
  | getTransactionReceipt endpoint hash =>
    change Except TransportError (Option Receipt) at r
    match r, hSame with
    | .ok (some _), hSame =>
      injection hSame with hSame
      cases hSame
  | _ => cases hSame

/-- A view that succeeds was told the state it returns, and at no block before those seen. -/
theorem told_viewAtSeenBlock {block : Nat} {state : UInt16} (hSaw : x.1.Saw block)
    (h : Called config (viewAtSeenBlock config id) x tr (.ok state) x') :
    (∃ e ∈ tr, ∃ asked, Tells e (.details id asked state)) ∧
    ∀ e ∈ tr, ∀ id' asked state', Tells e (.details id' asked state') → block ≤ asked := by
  obtain ⟨_, tr1, tr2, x1, h1, h2, rfl⟩ := called_bind h
  have hChecks : Silent tr1 :=
    silent_of_onlyOps (onlyOps_crossCheckSeenBlock.mono tellsNothing_of_ofChecks) h1
  obtain ⟨bounds, tr3, tr4, x2, h3, h4, rfl⟩ := called_bind h2
  have hBounds : Silent tr3 := silent_ask h3 trivial
  -- The bound that is read has what was seen before the view started.
  have hSeen : block ≤ bounds.1 := by
    obtain ⟨t, e, hPerforms, -, -, hBefore, -⟩ := called_ask h3
    obtain ⟨c, -, hExec⟩ := (System.observed_performs hPerforms).1
    obtain ⟨rfl, -⟩ := exec_blockBounds hExec
    exact ((hSaw.follows h1.follows).follows hBefore.follows).2
  obtain ⟨r, tr5, tr6, x3, h5, h6, rfl⟩ := called_bind h4
  have hOnly : (executeWithEndpoint config "get_agreement_details"
      (viewEndpoint id bounds.1 bounds.2)).OnlyOps (ClientOp.NotBefore bounds.1) :=
    onlyOps_executeWithEndpoint notBefore_of_ofPool (fun _ => notBefore_viewEndpoint) _
  have hAnswered := answered_executeWithEndpoint (fun h => (told_viewEndpoint h).2 _ rfl) h5
  match r with
  | .error e => exact nomatch (called_pure h6).1
  | .ok (head, output) =>
    obtain ⟨_, tr7, tr8, x4, h7, h8, rfl⟩ := called_bind h6
    have hNotes : Silent tr7 := by
      obtain ⟨_, tr9, tr10, x5, h9, h10, rfl⟩ := called_bind h7
      obtain ⟨-, rfl, -⟩ := called_pure h10
      exact (silent_ask h9 trivial).append silent_nil
    cases output with
    | none => exact nomatch (called_pure h8).1
    | some state' =>
      obtain ⟨hState, rfl, -⟩ := called_pure h8
      obtain rfl := Except.ok.inj hState
      obtain ⟨before, last, position, y1, y2, rfl, -, hLast⟩ := hAnswered
      obtain ⟨e, he, hTells⟩ := (told_viewEndpoint hLast).1 head state rfl
      refine ⟨⟨e, by simp [he], head, hTells⟩, fun e' he' id' asked state' hTells' => ?_⟩
      have hNot : ∀ {tr}, Silent tr → e' ∉ tr := fun hSilent hMem =>
        hTells'.not_silent (hSilent e' hMem)
      have hMem : e' ∈ before ++ last := by
        rcases List.mem_append.mp he' with hMem | hMem
        · exact absurd hMem (hNot hChecks)
        · rcases List.mem_append.mp hMem with hMem | hMem
          · exact absurd hMem (hNot hBounds)
          · rcases List.mem_append.mp hMem with hMem | hMem
            · exact hMem
            · rw [List.append_nil] at hMem
              exact absurd hMem (hNot hNotes)
      exact Nat.le_trans hSeen (notBefore_of_tells hOnly h5 hMem hTells')

/-- Once a wait for a receipt has reported a transaction mined in a block within belief, a view that
starts afterwards and succeeds was told the state it returns at that block or a later one, whatever
the rest of the client does in between; and a confirmed newest block never goes back. -/
theorem views_follow_receipts (config : ClientConfig) :
    (∀ hash timeout success block x tr x1,
      Called config (waitForReceipt config hash timeout) x tr (.mined success) x1 →
      ToldMined hash block tr → ∀ x2, Meanwhile config x1 x2 → ∀ id state tr' x3,
      Called config (viewAtSeenBlock config id) x2 tr' (.ok state) x3 →
      (∃ e ∈ tr', ∃ asked, Tells e (.details id asked state)) ∧
      ∀ e ∈ tr', ∀ id' asked state', Tells e (.details id' asked state') → block ≤ asked) ∧
    ∀ c c', (client config fun _ _ _ _ => True).Run c c' → c.1.seenBlock.confirmed = true →
      c'.1.seenBlock.confirmed = true ∧ c.1.seenBlock.number ≤ c'.1.seenBlock.number := by
  constructor
  · intro hash timeout success block x tr x1 hWait hTold x2 hLater id state tr' x3 hView
    have hSaw := saw_of_waitForReceipt hWait hTold
    exact told_viewAtSeenBlock (hSaw.follows hLater.follows) hView
  · intro c c' hRun hConfirmed
    have hFollows : c.1.seenBlock.Follows c'.1.seenBlock := by
      refine System.relates_of_run (R := fun s s' => s.seenBlock.Follows s'.seenBlock)
        (fun _ => .refl _) SeenBlock.Follows.trans
        (fun hPerforms => (effect_of_performs hPerforms).follows) (fun hMove => ?_) hRun
      rcases move_cases hMove with ⟨now, -, rfl⟩ | ⟨head, -, rfl⟩
      · exact .refl _
      · exact .refl _
    exact hFollows hConfirmed

theorem called_play {α : Type} {config : ClientConfig} {p : ClientAct α} {x : Recorded}
    {choices : List ClientChoice} {a : α}
    (h : (p.play (recordedClient config).exec x choices).2.1 = some a) :
    Called config p x (p.play (recordedClient config).exec x choices).1 a
      (p.play (recordedClient config).exec x choices).2.2 := by
  have hRuns : p.Runs (fun x o r x' => ∃ t, (recordedClient config).Performs t x o r x')
      (Meanwhile config) x _ _ _ :=
    Prog.runs_play meanwhile_refl (fun _ _ c _ _ hExec => ⟨0, c, trivial, hExec⟩) p x choices
  rwa [h] at hRuns

/-- A wait that is told of block 100. -/
def waitTold : List (Action Recorded ClientOp) × Option ReceiptWait × Recorded :=
  (waitForReceipt (sampleClient 0) "5" receiptPollTimeout).play (recordedClient (sampleClient 0)).exec
    (ClientState.new 0 100, []) [.ok, .ok, .receipt (some ⟨some 100, true⟩), .ok]

def viewAnswered : List (Action Recorded ClientOp) × Option (Except ClientError UInt16) × Recorded :=
  (viewAtSeenBlock (sampleClient 0) 10).play (recordedClient (sampleClient 0)).exec waitTold.2.2
    [.ok, .ok, .ok, .ok, .ok, .number 105, .ok, .details (some 1), .ok]

theorem view_after_receipt : ∃ x tr x1 tr' x3,
    Called (sampleClient 0) (waitForReceipt (sampleClient 0) "5" receiptPollTimeout) x tr
      (.mined true) x1 ∧ ToldMined "5" 100 tr ∧
    Called (sampleClient 0) (viewAtSeenBlock (sampleClient 0) 10) x1 tr' (.ok 1) x3 ∧
    ∃ e ∈ tr', ∃ asked, Tells e (.details 10 asked 1) ∧ 100 ≤ asked := by
  have hWait : Called (sampleClient 0) (waitForReceipt (sampleClient 0) "5" receiptPollTimeout)
      (ClientState.new 0 100, []) waitTold.1 (.mined true) waitTold.2.2 :=
    called_play (by decide +kernel)
  have hTold : ToldMined "5" 100 waitTold.1 := by
    have hThird : 2 < waitTold.1.length := by decide +kernel
    have hTells : ∀ h : 2 < waitTold.1.length, (waitTold.1.get ⟨2, h⟩).after.2 =
        (waitTold.1.get ⟨2, h⟩).before.2 ++ [.receipt "5" ⟨some 100, true⟩] := by decide +kernel
    refine ⟨waitTold.1.take 2, waitTold.1.get ⟨2, hThird⟩, waitTold.1.drop 3, true, ?_, hTells hThird,
      fun e' he' hConfirmed => ?_⟩
    · rw [List.get_eq_getElem, List.getElem_cons_drop, List.take_append_drop]
    · have hUnconfirmed : ∀ e ∈ waitTold.1.drop 3, e.before.1.seenBlock.confirmed = false := by
        decide +kernel
      rw [hUnconfirmed e' he'] at hConfirmed
      cases hConfirmed
  have hView : Called (sampleClient 0) (viewAtSeenBlock (sampleClient 0) 10) waitTold.2.2
      viewAnswered.1 (.ok 1) viewAnswered.2.2 := called_play (by decide +kernel)
  obtain ⟨⟨e, he, asked, hTells⟩, hFollows⟩ := (views_follow_receipts (sampleClient 0)).1 _ _ _ _ _ _
    _ hWait hTold _ (meanwhile_refl _) _ _ _ _ hView
  exact ⟨_, _, _, _, _, hWait, hTold, hView, e, he, asked, hTells, hFollows e he _ _ _ hTells⟩

end Views

end AlloyClient

end Dipper
