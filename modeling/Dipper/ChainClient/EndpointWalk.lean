import Dipper.ChainClient.Contracts
import Dipper.Concurrent.Trace
import Mathlib.Data.Nat.ModEq

/-! The pool's walk of the endpoints, as one call sees it while others move the shared index.  The
call goes once round the ring from where it started; each endpoint is asked in one round of
attempts; and what is returned is the first answer, or the failures of all. -/

namespace Dipper

namespace AlloyClient

open Concurrent

section Refusals

def hexChars : List Char := "0123456789abcdef".toList

theorem mem_hexChars_of_toDigitsCore (fuel n : Nat) (digits : List Char)
    (h : ∀ c ∈ digits, c ∈ hexChars) : ∀ c ∈ Nat.toDigitsCore 16 fuel n digits, c ∈ hexChars := by
  have hDigit : ∀ d < 16, Nat.digitChar d ∈ hexChars := by decide +kernel
  induction fuel generalizing n digits with
  | zero => exact h
  | succ fuel ih =>
    have hCons : ∀ c ∈ Nat.digitChar (n % 16) :: digits, c ∈ hexChars := by
      intro c hc
      rcases List.mem_cons.mp hc with rfl | hc
      · exact hDigit _ (Nat.mod_lt n (by decide))
      · exact h c hc
    unfold Nat.toDigitsCore
    dsimp only
    split
    · exact hCons
    · exact ih _ _ hCons

theorem mem_hexChars_of_hexDigits {width n : Nat} : ∀ c ∈ hexDigits width n, c ∈ hexChars := by
  intro c hc
  rcases List.mem_append.mp hc with hc | hc
  · obtain rfl := (List.mem_replicate.mp hc).2
    decide
  · exact mem_hexChars_of_toDigitsCore _ _ _ (fun c hc => absurd hc List.not_mem_nil) c hc

/-- A part without a digit of a selector is in a text that ends in such digits only if it is in the
rest. -/
theorem infix_of_infix_append {part text digits : List Char} (hSome : part ≠ [])
    (hPart : ∀ c ∈ part, c ∉ hexChars) (hDigits : ∀ c ∈ digits, c ∈ hexChars)
    (h : part <:+: text ++ digits) : part <:+: text := by
  rcases List.infix_append_iff.mp h with hText | hIn | ⟨front, back, rfl, hFront, hBack⟩
  · exact hText
  · obtain ⟨c, hc⟩ := List.exists_mem_of_ne_nil part hSome
    exact absurd (hDigits c (hIn.subset hc)) (hPart c hc)
  · cases back with
    | nil => simpa using hFront.isInfix
    | cons c back =>
      have hc := hDigits c (hBack.subset List.mem_cons_self)
      exact absurd hc (hPart c (List.mem_append_right _ List.mem_cons_self))

/-- Texts of which each pattern of a fault worth another go has one in it, and that neither the
words for a contract's rejection nor a selector has. -/
def telling : List String := ["nn", "m", "u", "g", "k"]

/-- No pattern of a fault worth another go is in the text of a contract's rejection. -/
theorem not_hasText_contractRevert {pattern : String}
    (hPattern : ∃ part ∈ telling, part.toList <:+: pattern.toList) {text : List Char}
    (hText : ∃ digits, text = "contract reverted with selector 0x".toList ++ digits ∧
      ∀ c ∈ digits, c ∈ hexChars) : ¬ pattern.toList <:+: text := by
  intro h
  obtain ⟨part, hPart, hIn⟩ := hPattern
  obtain ⟨digits, rfl, hDigits⟩ := hText
  have hTelling : ∀ part ∈ telling, part.toList ≠ [] ∧
      (part.toList.all fun c => decide (c ∉ hexChars)) = true ∧
      ¬ part.toList <:+: "contract reverted with selector 0x".toList := by decide +kernel
  obtain ⟨hSome, hNone, hWords⟩ := hTelling part hPart
  have hNot : ∀ c ∈ part.toList, c ∉ hexChars := fun c hc =>
    of_decide_eq_true (List.all_eq_true.mp hNone c hc)
  exact hWords (infix_of_infix_append hSome hNot hDigits (hIn.trans h))

theorem text_contractRevert (selector : Vector UInt8 4) (data : List UInt8) :
    ∃ digits, (ClientError.contractRevert selector data).text.toList =
      "contract reverted with selector 0x".toList ++ digits ∧ ∀ c ∈ digits, c ∈ hexChars := by
  unfold ClientError.text
  dsimp only
  rw [String.toList_append]
  refine ⟨_, rfl, fun c hc => ?_⟩
  rw [String.toList_ofList] at hc
  obtain ⟨byte, -, hByte⟩ := List.mem_flatMap.mp hc
  exact mem_hexChars_of_hexDigits c hByte

theorem not_retried_of_contractRevert? {e : TransportError} {named : ClientError}
    (h : e.contractRevert? = some named) : e.isBehind = false ∧ e.isRetryable = false := by
  unfold TransportError.contractRevert? at h
  split at h
  case h_2 => cases h
  case h_1 selector data =>
    obtain ⟨digits, hText, hDigits⟩ := text_contractRevert selector data
    constructor
    · have hPattern : ∃ part ∈ telling, part.toList <:+: behindASeenBlock.toList := by
        decide +kernel
      exact decide_eq_false (not_hasText_contractRevert hPattern ⟨digits, hText, hDigits⟩)
    · have hAll : (hexChars.all fun c => decide (c.toLower ∈ hexChars)) = true := by
        decide +kernel
      have hLower : ∀ c ∈ hexChars, c.toLower ∈ hexChars := fun c hc =>
        of_decide_eq_true (List.all_eq_true.mp hAll c hc)
      have hText' : (ClientError.contractRevert selector data).text.toLower.toList =
          "contract reverted with selector 0x".toList ++ digits.map Char.toLower := by
        have hWords : "contract reverted with selector 0x".toList.map Char.toLower =
            "contract reverted with selector 0x".toList := by decide +kernel
        change (String.map Char.toLower _).toList = _
        rw [String.toList_map, hText, List.map_append, hWords]
      have hPatterns : ∀ p ∈ retryableErrorPatterns,
          ∃ part ∈ telling, part.toList <:+: p.toList := by decide +kernel
      have hDigits' : ∀ c ∈ digits.map Char.toLower, c ∈ hexChars := by
        intro c hc
        obtain ⟨digit, hDigit, rfl⟩ := List.mem_map.mp hc
        exact hLower digit (hDigits digit hDigit)
      have hNone : (retryableErrorPatterns.any fun p =>
          hasText (ClientError.contractRevert selector data).text.toLower p) = false := by
        rw [List.any_eq_false]
        intro p hp
        rw [hasText, decide_eq_true_eq]
        exact not_hasText_contractRevert (hPatterns p hp) ⟨_, hText', hDigits'⟩
      unfold TransportError.isRetryable
      exact hNone

end Refusals

section Walk

variable {β : Type} {config : ClientConfig} {operation : String}
  {f : Nat → ClientAct (Except TransportError β)} {position start : Nat}
  {s s' : ClientState} {tr : List (Action ClientState ClientOp)}

/-- A run of a task of the client, whose operations come out in any way they can, while the others
change what they share in any way. -/
def RunsBeside {α : Type} (p : ClientAct α) (s : ClientState)
    (tr : List (Action ClientState ClientOp)) (out : Option α) (s' : ClientState) : Prop :=
  p.Runs (fun s o r s' => ∃ choice, s.exec o choice = some (r, s')) (fun _ _ => True) s tr out s'

theorem runsBeside_bind {α γ : Type} {p : ClientAct α} {g : α → ClientAct γ} {out : Option γ}
    (run : RunsBeside (p >>= g) s tr out s') :
    (out = none ∧ RunsBeside p s tr none s') ∨
      ∃ a tr1 tr2 s1, RunsBeside p s tr1 (some a) s1 ∧ RunsBeside (g a) s1 tr2 out s' ∧
        tr = tr1 ++ tr2 :=
  Prog.runs_bind_or_cut (fun _ => trivial) run

/-- A run that is attempts at a call, each at an endpoint and with what it returned, and operations
of the pool between them.  The last attempt may be cut short. -/
inductive Attempts (f : Nat → ClientAct (Except TransportError β)) :
    ClientState → List (Action ClientState ClientOp) →
    List (Nat × Option (Except TransportError β)) → ClientState → Prop
  | stop {s s' : ClientState} : Attempts f s [] [] s'
  | own {s s1 s' : ClientState} {e : Action ClientState ClientOp}
      {tr : List (Action ClientState ClientOp)}
      {attempts : List (Nat × Option (Except TransportError β))} : e.op.ofPool →
      Attempts f s1 tr attempts s' → Attempts f s (e :: tr) attempts s'
  | attempt {s s1 s' : ClientState} {tr tr' : List (Action ClientState ClientOp)} {position : Nat}
      {r : Except TransportError β} {attempts : List (Nat × Option (Except TransportError β))} :
      RunsBeside (f position) s tr (some r) s1 → Attempts f s1 tr' attempts s' →
      Attempts f s (tr ++ tr') ((position, some r) :: attempts) s'
  | cut {s s' : ClientState} {tr : List (Action ClientState ClientOp)} {position : Nat} :
      RunsBeside (f position) s tr none s' → Attempts f s tr [(position, none)] s'

/-- The attempts at one endpoint, one after another. -/
structure Round (β : Type) where
  endpoint : Nat
  results : List (Option (Except TransportError β))

def Round.attempts (round : Round β) : List (Nat × Option (Except TransportError β)) :=
  round.results.map fun r => (round.endpoint, r)

/-- A round asks an endpoint again only after a fault, and not after a contract's rejection. -/
structure Round.Retries (round : Round β) (left : Nat) : Prop where
  asks : round.results ≠ []
  most : round.results.length ≤ left + 1
  faults : ∀ r ∈ round.results.dropLast, ∃ e, r = some (.error e) ∧ e.contractRevert? = none

theorem Round.retries_singleton (r : Option (Except TransportError β)) (left : Nat) :
    (⟨position, [r]⟩ : Round β).Retries left :=
  ⟨List.cons_ne_nil _ _, Nat.le_add_left _ _, fun _ hr => absurd hr List.not_mem_nil⟩

theorem Round.Retries.cons {results : List (Option (Except TransportError β))} {left : Nat}
    {e : TransportError} (hFault : e.contractRevert? = none)
    (h : (⟨position, results⟩ : Round β).Retries left) :
    (⟨position, some (.error e) :: results⟩ : Round β).Retries (left + 1) := by
  refine ⟨List.cons_ne_nil _ _, Nat.succ_le_succ h.most, ?_⟩
  intro r hr
  dsimp only at hr
  rw [List.dropLast_cons_of_ne_nil h.asks] at hr
  rcases List.mem_cons.mp hr with rfl | hr
  · exact ⟨e, rfl, hFault⟩
  · exact h.faults r hr

theorem RunsBeside.later {α : Type} {p : ClientAct α} {out : Option α} {s0 : ClientState}
    (run : RunsBeside p s tr out s') : RunsBeside p s0 tr out s' := by
  cases run with
  | ret _ => exact .ret trivial
  | cut _ => exact .cut trivial
  | op _ h rest => exact .op trivial h rest

theorem Attempts.later {attempts : List (Nat × Option (Except TransportError β))}
    {s0 : ClientState} (h : Attempts f s tr attempts s') : Attempts f s0 tr attempts s' := by
  cases h with
  | stop => exact .stop
  | own ho rest => exact .own ho rest
  | attempt run rest => exact .attempt run.later rest
  | cut run => exact .cut run.later

theorem Attempts.after_own {attempts : List (Nat × Option (Except TransportError β))}
    {tr1 : List (Action ClientState ClientOp)} {s1 : ClientState}
    (hOwn : ∀ e ∈ tr1, e.op.ofPool) (h : Attempts f s1 tr attempts s') :
    Attempts f s (tr1 ++ tr) attempts s' := by
  induction tr1 generalizing s with
  | nil => exact h.later
  | cons e tr1 ih =>
    have hRest : Attempts f s (tr1 ++ tr) attempts s' :=
      ih fun e he => hOwn e (List.mem_cons_of_mem _ he)
    exact .own (hOwn e List.mem_cons_self) hRest

/-- What a run of the attempts at one endpoint is: a round, and where it returned, with the result
of the last attempt, more attempts can follow. -/
def Asks (f : Nat → ClientAct (Except TransportError β)) (position left : Nat) (s : ClientState)
    (tr : List (Action ClientState ClientOp)) (out : Option (Except TransportError β))
    (s' : ClientState) : Prop :=
  ∃ results, (⟨position, results⟩ : Round β).Retries left ∧
    ((out = none ∧ Attempts f s tr (Round.attempts ⟨position, results⟩) s') ∨
      ∃ last, out = some last ∧ results.getLast? = some (some last) ∧
        ∀ tr' attempts s2, Attempts f s' tr' attempts s2 →
          Attempts f s (tr ++ tr') (Round.attempts ⟨position, results⟩ ++ attempts) s2)

theorem Asks.one {r : Except TransportError β} {out : Option (Except TransportError β)}
    {tr1 tr2 : List (Action ClientState ClientOp)} {s1 : ClientState}
    (run : RunsBeside (f position) s tr1 (some r) s1) (rest : RunsBeside (pure r) s1 tr2 out s')
    (left : Nat) : Asks f position left s (tr1 ++ tr2) out s' := by
  refine ⟨[some r], Round.retries_singleton _ _, ?_⟩
  cases rest with
  | ret _ =>
    refine .inr ⟨r, rfl, rfl, fun tr' attempts s2 h => ?_⟩
    rw [List.append_nil]
    exact .attempt run h.later
  | cut _ => exact .inl ⟨rfl, .attempt run .stop⟩

theorem Asks.again {e : TransportError} {left duration : Nat}
    {p : ClientAct (Except TransportError β)} {out : Option (Except TransportError β)}
    {tr1 tr2 : List (Action ClientState ClientOp)} {s1 : ClientState}
    (hFault : e.contractRevert? = none)
    (run : RunsBeside (f position) s tr1 (some (.error e)) s1)
    (rest : RunsBeside (sleep duration >>= fun _ => p) s1 tr2 out s')
    (hNext : ∀ {s tr}, RunsBeside p s tr out s' → Asks f position left s tr out s') :
    Asks f position (left + 1) s (tr1 ++ tr2) out s' := by
  have hOwn : (sleep duration).OnlyOps ClientOp.ofPool := onlyOps_sleep (fun _ h => h) duration
  rcases runsBeside_bind rest with ⟨rfl, hCut⟩ | ⟨_, trs, trn, s2, hSleep, hRest, rfl⟩
  · refine ⟨[some (.error e)], Round.retries_singleton _ _, .inl ⟨rfl, .attempt run ?_⟩⟩
    have hStop : Attempts f s1 [] [] s' := .stop
    have hPause : Attempts f s1 (tr2 ++ []) [] s' := .after_own (hCut.onlyOps hOwn) hStop
    rwa [List.append_nil] at hPause
  · obtain ⟨results, hRetries, hEnd⟩ := hNext hRest
    refine ⟨_, hRetries.cons hFault, ?_⟩
    rcases hEnd with ⟨rfl, hAttempts⟩ | ⟨last, rfl, hLast, hMore⟩
    · exact .inl ⟨rfl, .attempt run (.after_own (hSleep.onlyOps hOwn) hAttempts)⟩
    · refine .inr ⟨last, rfl, ?_, fun tr' attempts s3 h => ?_⟩
      · rw [List.getLast?_cons, hLast, Option.getD_some]
      · rw [List.append_assoc, List.append_assoc]
        exact .attempt run (.after_own (hSleep.onlyOps hOwn) (hMore tr' attempts s3 h))

theorem runs_askEndpoint (left lagged : Nat) {out : Option (Except TransportError β)}
    (run : RunsBeside (askEndpoint config f position left lagged) s tr out s') :
    Asks f position left s tr out s' := by
  induction left generalizing lagged s tr with
  | zero =>
    unfold askEndpoint at run
    rcases runsBeside_bind run with ⟨rfl, hCut⟩ | ⟨r, tr1, tr2, s1, run1, rest, rfl⟩
    · exact ⟨[none], Round.retries_singleton _ _, .inl ⟨rfl, .cut hCut⟩⟩
    · cases r <;> exact .one run1 rest 0
  | succ left ih =>
    unfold askEndpoint at run
    rcases runsBeside_bind run with ⟨rfl, hCut⟩ | ⟨r, tr1, tr2, s1, run1, rest, rfl⟩
    · exact ⟨[none], Round.retries_singleton _ _, .inl ⟨rfl, .cut hCut⟩⟩
    cases r with
    | ok value => exact .one run1 rest _
    | error e =>
      dsimp only at rest
      -- A contract's rejection is neither behind nor retryable.
      have hFault : e.isBehind = true ∨ e.isRetryable = true → e.contractRevert? = none := by
        intro hRetried
        cases hNamed : e.contractRevert? with
        | none => rfl
        | some named =>
          obtain ⟨hBehind, hRetry⟩ := not_retried_of_contractRevert? hNamed
          rw [hBehind, hRetry] at hRetried
          simp at hRetried
      by_cases hBehind : (e.isBehind && decide (lagged < lagRetries)) = true
      · rw [if_pos hBehind] at rest
        exact .again (hFault (.inl (Bool.and_eq_true_iff.mp hBehind).1)) run1 rest (ih _)
      · rw [if_neg hBehind] at rest
        by_cases hRetry : e.isRetryable = true
        · rw [if_pos hRetry] at rest
          exact .again (hFault (.inr hRetry)) run1 rest (ih _)
        · rw [if_neg hRetry] at rest
          exact .one run1 rest _

/-- What a run of the walk is, after some failures: rounds at the endpoints that follow in the ring,
the last attempt of each but the last a failure; and what it returns is the answer of the last
attempt of all, or tells of the failures of all. -/
structure Walks (config : ClientConfig) (operation : String) (start left : Nat)
    (failures : List (Nat × TransportError)) (rounds : List (Round β))
    (out : Option (Except ClientError β)) : Prop where
  ring : rounds.map (·.endpoint) = (List.range rounds.length).map fun k =>
    (start + (failures.length + k)) % config.endpoints
  most : rounds.length ≤ left + 1
  retries : ∀ round ∈ rounds, round.Retries config.maxRetries
  failed : ∀ attempt ∈ (rounds.flatMap Round.attempts).dropLast, ∃ e, attempt.2 = some (.error e)
  answered : ∀ value, out = some (.ok value) →
    ∃ endpoint, (rounds.flatMap Round.attempts).getLast? = some (endpoint, some (.ok value))
  exhausted : ∀ e, out = some (.error e) → rounds.length = left + 1 ∧
    ∃ more : List (Nat × TransportError),
      (rounds.map fun round => (round.endpoint, round.results.getLast?)) =
        (more.map fun failure => (failure.1, some (some (.error failure.2)))) ∧
      e = allFailed config operation (failures ++ more)

theorem Round.Retries.all_failed {round : Round β} {left : Nat} {e : TransportError}
    (h : round.Retries left) (hLast : round.results.getLast? = some (some (.error e))) :
    ∀ attempt ∈ round.attempts, ∃ e, attempt.2 = some (.error e) := by
  intro attempt hAttempt
  obtain ⟨r, hr, rfl⟩ := List.mem_map.mp hAttempt
  rw [← List.dropLast_append_getLast? _ hLast] at hr
  rcases List.mem_append.mp hr with hr | hr
  · obtain ⟨e', rfl, -⟩ := h.faults r hr
    exact ⟨e', rfl⟩
  · exact ⟨e, List.mem_singleton.mp hr⟩

theorem Walks.one {left : Nat} {failures : List (Nat × TransportError)}
    {results : List (Option (Except TransportError β))} {out : Option (Except ClientError β)}
    (h : (⟨(start + failures.length) % config.endpoints, results⟩ : Round β).Retries
      config.maxRetries)
    (hAnswered : ∀ value, out = some (.ok value) → results.getLast? = some (some (.ok value)))
    (hExhausted : ∀ e, out = some (.error e) → left = 0 ∧ ∃ e',
      results.getLast? = some (some (.error e')) ∧
      e = allFailed config operation
        (failures ++ [((start + failures.length) % config.endpoints, e')])) :
    Walks config operation start left failures
      [⟨(start + failures.length) % config.endpoints, results⟩] out := by
  have hAttempts : [(⟨(start + failures.length) % config.endpoints, results⟩ : Round β)].flatMap
      Round.attempts = results.map fun r => ((start + failures.length) % config.endpoints, r) := by
    rw [List.flatMap_singleton]
    rfl
  refine ⟨rfl, Nat.le_add_left _ _, ?_, ?_, ?_, ?_⟩
  · intro round hRound
    obtain rfl := List.mem_singleton.mp hRound
    exact h
  · intro attempt hAttempt
    rw [hAttempts, ← List.map_dropLast] at hAttempt
    obtain ⟨r, hr, rfl⟩ := List.mem_map.mp hAttempt
    obtain ⟨e, rfl, -⟩ := h.faults r hr
    exact ⟨e, rfl⟩
  · intro value hOut
    rw [hAttempts, List.getLast?_map, hAnswered value hOut]
    exact ⟨_, rfl⟩
  · intro e hOut
    obtain ⟨rfl, e', hLast, rfl⟩ := hExhausted e hOut
    refine ⟨rfl, [(_, e')], ?_, rfl⟩
    rw [List.map_singleton, List.map_singleton, hLast]

theorem Walks.cons {left : Nat} {failures : List (Nat × TransportError)}
    {results : List (Option (Except TransportError β))} {rounds : List (Round β)}
    {out : Option (Except ClientError β)} {e : TransportError}
    (h : (⟨(start + failures.length) % config.endpoints, results⟩ : Round β).Retries
      config.maxRetries) (hLast : results.getLast? = some (some (.error e)))
    (hRest : Walks config operation start left
      (failures ++ [((start + failures.length) % config.endpoints, e)]) rounds out) :
    Walks config operation start (left + 1) failures
      (⟨(start + failures.length) % config.endpoints, results⟩ :: rounds) out := by
  have hFailed := h.all_failed hLast
  refine ⟨?_, Nat.succ_le_succ hRest.most, ?_, ?_, ?_, ?_⟩
  · have hRing := hRest.ring
    rw [List.length_append, List.length_singleton] at hRing
    rw [List.map_cons, hRing, List.length_cons, List.range_succ_eq_map, List.map_cons,
      List.map_map, Nat.add_zero]
    congr 2
    funext k
    rw [Function.comp_apply, Nat.add_assoc, Nat.add_comm 1 k]
  · intro round hRound
    rcases List.mem_cons.mp hRound with rfl | hRound
    · exact h
    · exact hRest.retries round hRound
  · intro attempt hAttempt
    rw [List.flatMap_cons, List.dropLast_append] at hAttempt
    split at hAttempt
    · exact hFailed attempt (List.dropLast_subset _ hAttempt)
    · rcases List.mem_append.mp hAttempt with hAttempt | hAttempt
      · exact hFailed attempt hAttempt
      · exact hRest.failed attempt hAttempt
  · intro value hOut
    obtain ⟨endpoint, hEnd⟩ := hRest.answered value hOut
    refine ⟨endpoint, ?_⟩
    rw [List.flatMap_cons, List.getLast?_append, hEnd]
    rfl
  · intro error hOut
    obtain ⟨hLength, more, hMore, rfl⟩ := hRest.exhausted error hOut
    refine ⟨by rw [List.length_cons, hLength],
      ((start + failures.length) % config.endpoints, e) :: more, ?_, ?_⟩
    · rw [List.map_cons, List.map_cons, hMore, hLast]
    · rw [List.append_assoc]
      rfl

theorem attempts_singleton (round : Round β) : [round].flatMap Round.attempts = round.attempts :=
  List.flatMap_singleton _ _

/-- A run of the walk goes on from a round at the next endpoint, unless it is cut short there. -/
theorem runs_next {γ : Type} {left : Nat}
    {p : Except TransportError β → ClientAct (Except ClientError γ)}
    {out : Option (Except ClientError γ)}
    (run : RunsBeside (askEndpoint config f position left 0 >>= p) s tr out s') :
    ∃ results, (⟨position, results⟩ : Round β).Retries left ∧
      ((out = none ∧ Attempts f s tr (Round.attempts ⟨position, results⟩) s') ∨
        ∃ r tr1 tr2 s1, tr = tr1 ++ tr2 ∧ results.getLast? = some (some r) ∧
          RunsBeside (p r) s1 tr2 out s' ∧
          ∀ tr' attempts s2, Attempts f s1 tr' attempts s2 →
            Attempts f s (tr1 ++ tr') (Round.attempts ⟨position, results⟩ ++ attempts) s2) := by
  rcases runsBeside_bind run with ⟨rfl, hCut⟩ | ⟨r, tr1, tr2, s1, run1, rest, rfl⟩
  · obtain ⟨results, hRetries, ⟨-, hAttempts⟩ | ⟨last, hNone, -⟩⟩ := runs_askEndpoint _ _ hCut
    · exact ⟨results, hRetries, .inl ⟨rfl, hAttempts⟩⟩
    · cases hNone
  · obtain ⟨results, hRetries, ⟨hSome, -⟩ | ⟨last, hSome, hLast, hMore⟩⟩ :=
      runs_askEndpoint _ _ run1
    · cases hSome
    · obtain rfl := Option.some.inj hSome
      exact ⟨results, hRetries, .inr ⟨r, tr1, tr2, s1, rfl, hLast, rest, hMore⟩⟩

theorem walks_ended {left : Nat} {failures : List (Nat × TransportError)}
    {results : List (Option (Except TransportError β))} {r : Except TransportError β}
    {a : Except ClientError β} {out : Option (Except ClientError β)}
    {tr1 tr2 : List (Action ClientState ClientOp)} {s1 : ClientState}
    (h : (⟨(start + failures.length) % config.endpoints, results⟩ : Round β).Retries
      config.maxRetries) (hLast : results.getLast? = some (some r))
    (hMore : ∀ tr' attempts s2, Attempts f s1 tr' attempts s2 → Attempts f s (tr1 ++ tr')
      (Round.attempts ⟨(start + failures.length) % config.endpoints, results⟩ ++ attempts) s2)
    (rest : RunsBeside (pure a) s1 tr2 out s') (hAnswer : ∀ value, a = .ok value → r = .ok value)
    (hError : ∀ e, a = .error e → left = 0 ∧ ∃ e', r = .error e' ∧ e = allFailed config operation
      (failures ++ [((start + failures.length) % config.endpoints, e')])) :
    ∃ rounds, Walks config operation start left failures rounds out ∧
      Attempts f s (tr1 ++ tr2) (rounds.flatMap Round.attempts) s' := by
  have hAttempts := hMore [] [] s' .stop
  rw [List.append_nil, List.append_nil] at hAttempts
  refine ⟨[⟨(start + failures.length) % config.endpoints, results⟩], ?_, ?_⟩
  · cases rest with
    | cut _ => exact .one h nofun nofun
    | ret _ =>
      refine .one h (fun value hOut => ?_) fun e hOut => ?_
      · rw [hLast, hAnswer value (Option.some.inj hOut)]
      · obtain ⟨hLeft, e', rfl, hAll⟩ := hError e (Option.some.inj hOut)
        exact ⟨hLeft, e', hLast, hAll⟩
  · rw [attempts_singleton]
    cases rest <;> rwa [List.append_nil]

theorem walks_cut {left : Nat} {failures : List (Nat × TransportError)}
    {results : List (Option (Except TransportError β))}
    (h : (⟨(start + failures.length) % config.endpoints, results⟩ : Round β).Retries
      config.maxRetries)
    (hAttempts : Attempts f s tr
      (Round.attempts ⟨(start + failures.length) % config.endpoints, results⟩) s') :
    ∃ rounds, Walks config operation start left failures rounds (none : Option (Except _ β)) ∧
      Attempts f s tr (rounds.flatMap Round.attempts) s' := by
  refine ⟨[⟨(start + failures.length) % config.endpoints, results⟩], .one h nofun nofun, ?_⟩
  rwa [attempts_singleton]

theorem runs_walkEndpoints (left : Nat) (failures : List (Nat × TransportError))
    {out : Option (Except ClientError β)}
    (run : RunsBeside (walkEndpoints config operation f start left failures) s tr out s') :
    ∃ rounds, Walks config operation start left failures rounds out ∧
      Attempts f s tr (rounds.flatMap Round.attempts) s' := by
  induction left generalizing failures s tr with
  | zero =>
    unfold walkEndpoints at run
    obtain ⟨results, hRetries, ⟨rfl, hAttempts⟩ | ⟨r, tr1, tr2, s1, rfl, hLast, rest, hMore⟩⟩ :=
      runs_next run
    · exact walks_cut hRetries hAttempts
    cases r with
    | ok value =>
      exact walks_ended hRetries hLast hMore rest (fun _ h => by cases h; rfl)
        fun _ h => by cases h
    | error e =>
      refine walks_ended hRetries hLast hMore rest (fun _ h => by cases h)
        fun error h => ⟨rfl, e, rfl, ?_⟩
      exact (Except.error.inj h).symm
  | succ left ih =>
    unfold walkEndpoints at run
    obtain ⟨results, hRetries, ⟨rfl, hAttempts⟩ | ⟨r, tr1, tr2, s1, rfl, hLast, rest, hMore⟩⟩ :=
      runs_next run
    · exact walks_cut hRetries hAttempts
    cases r with
    | ok value =>
      exact walks_ended hRetries hLast hMore rest (fun _ h => by cases h; rfl)
        fun _ h => by cases h
    | error e =>
      have hRotate : (ask .rotate).OnlyOps ClientOp.ofPool := .perform trivial
      rcases runsBeside_bind rest with ⟨rfl, hCut⟩ | ⟨_, tro, trn, s2, hOwn, hRest, rfl⟩
      · have hStop : Attempts f s1 [] [] s' := .stop
        have hPause : Attempts f s1 (tr2 ++ []) [] s' := .after_own (hCut.onlyOps hRotate) hStop
        have hAttempts := hMore _ _ _ hPause
        rw [List.append_nil, List.append_nil] at hAttempts
        exact walks_cut hRetries hAttempts
      · obtain ⟨rounds, hWalks, hAttempts⟩ := ih _ hRest
        exact ⟨_, hWalks.cons hRetries hLast,
          hMore _ _ _ (.after_own (hOwn.onlyOps hRotate) hAttempts)⟩

/-- A contract's rejection that an attempt was answered with. -/
def named (attempt : Nat × Option (Except TransportError β)) : Option ClientError :=
  match attempt.2 with
  | some (.error e) => e.contractRevert?
  | _ => none

/-- The first contract's rejection of a round that failed is in its last failure, if it has one. -/
theorem Round.Retries.findSome?_named {round : Round β} {left : Nat} {e : TransportError}
    (h : round.Retries left) (hLast : round.results.getLast? = some (some (.error e))) :
    round.attempts.findSome? named = e.contractRevert? := by
  rw [Round.attempts, ← List.dropLast_append_getLast? _ hLast, List.map_append,
    List.findSome?_append]
  have hNone :
      (round.results.dropLast.map fun r => (round.endpoint, r)).findSome? named = none := by
    rw [List.findSome?_eq_none_iff]
    intro attempt hAttempt
    obtain ⟨r, hr, rfl⟩ := List.mem_map.mp hAttempt
    obtain ⟨e', rfl, hFault⟩ := h.faults r hr
    exact hFault
  rw [hNone, Option.none_or, List.map_singleton, List.findSome?_singleton]
  rfl

theorem findSome?_named {rounds : List (Round β)} {left : Nat}
    {failures : List (Nat × TransportError)} (h : ∀ round ∈ rounds, round.Retries left)
    (hFailures : (rounds.map fun round => (round.endpoint, round.results.getLast?)) =
      (failures.map fun failure => (failure.1, some (some (.error failure.2))))) :
    (rounds.flatMap Round.attempts).findSome? named =
      failures.findSome? fun failure => failure.2.contractRevert? := by
  induction rounds generalizing failures with
  | nil =>
    rw [List.map_nil, eq_comm, List.map_eq_nil_iff] at hFailures
    rw [hFailures]
    rfl
  | cons round rounds ih =>
    cases failures with
    | nil => cases hFailures
    | cons failure failures =>
      rw [List.map_cons, List.map_cons, List.cons.injEq, Prod.mk.injEq] at hFailures
      obtain ⟨⟨-, hLast⟩, hRest⟩ := hFailures
      rw [List.flatMap_cons, List.findSome?_append, List.findSome?_cons,
        (h round List.mem_cons_self).findSome?_named hLast,
        ih (fun round hRound => h round (List.mem_cons_of_mem _ hRound)) hRest]
      cases failure.2.contractRevert? <;> rfl

/-- A text has others in it, one after another. -/
def HasInOrder : String → List String → Prop
  | _, [] => True
  | text, part :: parts => ∃ before after, text = before ++ part ++ after ∧ HasInOrder after parts

theorem HasInOrder.append {text : String} {parts : List String} (before : String)
    (h : HasInOrder text parts) : HasInOrder (before ++ text) parts := by
  cases parts with
  | nil => trivial
  | cons part parts =>
    obtain ⟨front, after, rfl, hRest⟩ := h
    refine ⟨before ++ front, after, ?_, hRest⟩
    rw [String.append_assoc, String.append_assoc, String.append_assoc]

theorem hasInOrder_intercalate {α : Type} (separator : String) (front part : α → String)
    (l : List α) :
    HasInOrder (separator.intercalate (l.map fun a => front a ++ part a)) (l.map part) := by
  induction l with
  | nil => trivial
  | cons a l ih =>
    cases l with
    | nil => exact ⟨front a, "", by simp, trivial⟩
    | cons b l => exact ⟨front a, separator ++ _, by simp [String.append_assoc], ih.append _⟩

theorem nodup_ring {start endpoints length : Nat} (h : length ≤ endpoints) :
    ((List.range length).map fun k => (start + k) % endpoints).Nodup := by
  refine List.Nodup.map_on ?_ List.nodup_range
  intro i hi j hj hSame
  rw [List.mem_range] at hi hj
  have hEq : i % endpoints = j % endpoints := Nat.ModEq.add_left_cancel' start hSame
  rwa [Nat.mod_eq_of_lt (Nat.lt_of_lt_of_le hi h),
    Nat.mod_eq_of_lt (Nat.lt_of_lt_of_le hj h)] at hEq

/-- However its operations come out, and whatever others do to the pool between them, a call asks
the endpoints in the order of the ring from where the pool pointed when it began, each in one round
of at most `maxRetries + 1` attempts.  Every attempt but the last failed, and an answer is returned;
the call gives up only when every endpoint has failed, with the first contract's rejection there
was, or else with a text that has the last failure of each endpoint in the order they were
asked. -/
theorem call_asks_each_endpoint_once {out : Option (Except ClientError β)}
    (run : RunsBeside (executeWithEndpoint config operation f) s tr out s') :
    ∃ (start : Nat) (rounds : List (Round β)),
      (∀ e ∈ tr.head?, e.op = .loadIndex ∧ e.before.currentIndex = start) ∧
      Attempts f s tr (rounds.flatMap Round.attempts) s' ∧
      (rounds.map (·.endpoint) = (List.range rounds.length).map fun k =>
        (start + k) % config.endpoints) ∧
      (rounds.map (·.endpoint)).Nodup ∧
      (∀ round ∈ rounds, 0 < round.results.length ∧
        round.results.length ≤ config.maxRetries + 1) ∧
      (∀ attempt ∈ (rounds.flatMap Round.attempts).dropLast, ∃ e, attempt.2 = some (.error e)) ∧
      (∀ attempt ∈ rounds.flatMap Round.attempts, ∀ value, attempt.2 = some (.ok value) →
        ∀ r ∈ out, r = .ok value) ∧
      (∀ value, out = some (.ok value) →
        ∃ endpoint, (endpoint, some (.ok value)) ∈ rounds.flatMap Round.attempts) ∧
      ∀ e, out = some (.error e) →
        rounds.length = config.endpoints ∧
        ∃ failures : List (Nat × TransportError),
          (rounds.map fun round => (round.endpoint, round.results.getLast?)) =
            (failures.map fun failure => (failure.1, some (some (.error failure.2)))) ∧
          match (rounds.flatMap Round.attempts).findSome? named with
          | some revert => e = revert
          | none => ∃ text, e = .rpcError text ∧
              HasInOrder text (failures.map fun failure =>
                describeFailure config failure.1 failure.2) := by
  change Prog.Runs _ _ (.op .loadIndex fun (start : Nat) =>
    walkEndpoints config operation f start (config.endpoints - 1) []) s tr out s' at run
  cases run with
  | cut _ => refine ⟨0, [], ?_, .stop, rfl, .nil, ?_, ?_, ?_, ?_, ?_⟩ <;> simp
  | @op _ _ _ s1 s2 _ index tr _ _ hLoad rest =>
    obtain ⟨choice, hExec⟩ := hLoad
    obtain rfl : index = s1.currentIndex := (exec_loadIndex hExec).1
    obtain ⟨rounds, hWalks, hAttempts⟩ := runs_walkEndpoints _ _ rest
    have hMost : rounds.length ≤ config.endpoints := by
      have hLe := hWalks.most
      have hPos := config.nonempty
      omega
    have hRing : rounds.map (·.endpoint) = (List.range rounds.length).map fun k =>
        (s1.currentIndex + k) % config.endpoints := by
      rw [hWalks.ring]
      simp only [List.length_nil, Nat.zero_add]
    refine ⟨s1.currentIndex, rounds, ?_, .own trivial hAttempts, hRing, ?_, ?_, hWalks.failed, ?_,
      ?_, ?_⟩
    · intro e he
      obtain rfl := Option.some.inj he
      exact ⟨rfl, rfl⟩
    · rw [hRing]
      exact nodup_ring hMost
    · intro round hRound
      have hRetries := hWalks.retries round hRound
      exact ⟨List.length_pos_of_ne_nil hRetries.asks, hRetries.most⟩
    · intro attempt hAttempt value hValue r hr
      cases r with
      | ok value' =>
        -- Every other attempt failed, so the answer is the last one.
        obtain ⟨endpoint, hLast⟩ := hWalks.answered value' hr
        rw [← List.dropLast_append_getLast? _ hLast] at hAttempt
        rcases List.mem_append.mp hAttempt with hAttempt | hAttempt
        · obtain ⟨e, hFailed⟩ := hWalks.failed attempt hAttempt
          rw [hFailed] at hValue
          cases hValue
        · obtain rfl := List.mem_singleton.mp hAttempt
          obtain rfl := Except.ok.inj (Option.some.inj hValue)
          rfl
      | error e =>
        obtain ⟨-, failures, hFailures, -⟩ := hWalks.exhausted e hr
        obtain ⟨round, hRound, hAttempt⟩ := List.mem_flatMap.mp hAttempt
        have hMem : (round.endpoint, round.results.getLast?) ∈ failures.map fun failure =>
            (failure.1, some (some (.error failure.2))) :=
          hFailures ▸ List.mem_map_of_mem hRound
        obtain ⟨failure, -, hLast⟩ := List.mem_map.mp hMem
        obtain ⟨e', hFailed⟩ := (hWalks.retries round hRound).all_failed
          (Prod.mk.inj hLast).2.symm attempt hAttempt
        rw [hFailed] at hValue
        cases hValue
    · intro value hOut
      obtain ⟨endpoint, hLast⟩ := hWalks.answered value hOut
      exact ⟨endpoint, List.mem_of_getLast? hLast⟩
    · intro e hOut
      obtain ⟨hLength, failures, hFailures, rfl⟩ := hWalks.exhausted e hOut
      have hPos := config.nonempty
      refine ⟨by omega, failures, hFailures, ?_⟩
      rw [findSome?_named hWalks.retries hFailures, List.nil_append]
      unfold allFailed
      cases failures.findSome? fun failure => failure.2.contractRevert? with
      | some revert => rfl
      | none => exact ⟨_, rfl, (hasInOrder_intercalate "; " _ _ failures).append _⟩

def sampleCall : ClientAct (Except ClientError Nat) :=
  executeWithEndpoint (sampleClient 1) "get_nonce" fun endpoint => ask (.getPendingCount endpoint)

/-- The first endpoint names a contract's rejection and the second cannot be reached. -/
theorem rejection_kept_through_outage :
    ∃ tr s', RunsBeside sampleCall (ClientState.new 0 1000) tr
        (some (.error (.contractRevert #v[1, 2, 3, 4] []))) s' ∧
      ∃ (start : Nat) (rounds : List (Round Nat)), rounds.length = 2 ∧
        rounds.map (·.endpoint) = (List.range rounds.length).map fun k => (start + k) % 2 := by
  let choices : List ClientChoice :=
    [.ok, .error (.boxed (.contractRevert #v[1, 2, 3, 4] [])), .ok, .error (.reply "gone" false)]
  have hRun : RunsBeside sampleCall (ClientState.new 0 1000) _ _ _ :=
    Prog.runs_play (fun _ => trivial) (fun _ _ c _ _ h => ⟨c, h⟩) sampleCall _ choices
  have hOut : (sampleCall.play ClientState.exec (ClientState.new 0 1000) choices).2.1 =
      some (.error (.contractRevert #v[1, 2, 3, 4] [])) := by decide +kernel
  rw [hOut] at hRun
  obtain ⟨start, rounds, -, -, hRing, -, -, -, -, -, hAll⟩ := call_asks_each_endpoint_once hRun
  exact ⟨_, _, hRun, start, rounds, (hAll _ rfl).1, hRing⟩

end Walk

end AlloyClient

end Dipper
