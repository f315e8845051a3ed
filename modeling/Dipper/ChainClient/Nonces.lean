import Dipper.ChainClient.Contracts

/-! The nonces of the submissions.  The counter is read, set and moved under the submission lock
only, so the submissions that return as sent are transactions the endpoints accepted, their nonces
increase, and the counter follows the pending counts reported and what was sent; as long as it does
not come to the value that marks it as unset. -/

namespace Dipper

namespace AlloyClient

open Concurrent

variable {s s' : ClientState} {config : ClientConfig}

section Counter

/-- No endpoint reports the value that marks the counter as unset, and no submission is recorded from
the value before it. -/
def countsHeld (s : ClientState) (_ : TaskId) : ClientOp → ClientChoice → Prop
  | .getPendingCount _, .number n => n ≠ maxU64
  | .commitNonce _, _ => s.nonce ≠ maxU64 - 1
  | _, _ => True

instance (s : ClientState) (t : TaskId) (o : ClientOp) (c : ClientChoice) :
    Decidable (countsHeld s t o c) := by
  induction o using ClientOp.casesOn with
  | getPendingCount endpoint =>
    induction c using ClientChoice.casesOn with
    | number n => exact instDecidableNot
    | _ => exact isTrue trivial
  | commitNonce nonce => exact instDecidableNot
  | _ => exact isTrue trivial

/-- The counter is at a count that an endpoint reported, or next to a nonce reported as sent. -/
def ClientState.Reached (s : ClientState) : Prop :=
  (∃ n ∈ s.pendingCounts, s.nonce ≤ n) ∨ ∃ x ∈ s.sent, s.nonce ≤ x.nonce + 1

/-- The call under the lock has sent a transaction that the counter is next to. -/
def ClientState.Sending (s : ClientState) : Prop :=
  s.submitLock ≠ none ∧ ∃ tx ∈ s.accepted, tx.input.isSome = true ∧ s.nonce ≤ tx.nonce + 1

/-- Submissions that are, in this order, transactions of calls that endpoints accepted. -/
def ClientState.Accepted (config : ClientConfig) (s : ClientState) (l : List SubmittedTx) : Prop :=
  ∃ txs : List SignedTx, txs.Sublist s.accepted ∧ (∀ tx ∈ txs, tx.input.isSome = true) ∧
    txs.map (·.submitted config) = l

/-- The nonces sent increase up to the counter, which follows what was reported and sent. -/
structure ClientState.NoncesOk (config : ClientConfig) (s : ClientState) : Prop where
  accepted : s.Accepted config s.sent
  increasing : (s.sent.map (·.nonce)).Pairwise (· < ·)
  below : ∀ x ∈ s.sent, x.nonce < s.nonce
  unset : s.nonce = nonceUninitialized → s.sent = []
  counts : ∀ n ∈ s.pendingCounts, n < nonceUninitialized
  small : s.nonce ≤ nonceUninitialized
  reached : s.nonce ≠ nonceUninitialized → s.Reached ∨ s.Sending

theorem ClientState.Accepted.mono {l : List SubmittedTx} (h : s.Accepted config l)
    (hMore : s.accepted <+: s'.accepted) : s'.Accepted config l := by
  obtain ⟨txs, hTaken, hRest⟩ := h
  exact ⟨txs, hTaken.trans hMore.sublist, hRest⟩

/-- A counter that is set stays so and does not go back. -/
def ClientState.CountsOn (s s' : ClientState) : Prop :=
  s.nonce ≠ nonceUninitialized → s'.nonce ≠ nonceUninitialized ∧ s.nonce ≤ s'.nonce

theorem ClientState.CountsOn.of_eq (h : s'.nonce = s.nonce) : s.CountsOn s' := by
  intro hSet
  rw [h]
  exact ⟨hSet, Nat.le_refl _⟩

theorem ClientState.CountsOn.trans {s1 s2 s3 : ClientState} (h : s1.CountsOn s2)
    (h' : s2.CountsOn s3) : s1.CountsOn s3 := by
  intro hSet
  obtain ⟨hSet2, hLe⟩ := h hSet
  obtain ⟨hSet3, hLe'⟩ := h' hSet2
  exact ⟨hSet3, Nat.le_trans hLe hLe'⟩

theorem ClientState.NoncesOk.congr (h : s.NoncesOk config) (hNonce : s'.nonce = s.nonce)
    (hSent : s'.sent = s.sent) (hCounts : s'.pendingCounts = s.pendingCounts)
    (hAccepted : s.accepted <+: s'.accepted) (hLock : s.submitLock ≠ none → s'.submitLock ≠ none) :
    s'.NoncesOk config := by
  obtain ⟨hTaken, hIncreasing, hBelow, hUnset, hCount, hSmall, hReached⟩ := h
  constructor
  · rw [hSent]
    exact hTaken.mono hAccepted
  · rwa [hSent]
  · rwa [hSent, hNonce]
  · rwa [hSent, hNonce]
  · rwa [hCounts]
  · rwa [hNonce]
  · unfold ClientState.Reached ClientState.Sending at *
    rw [hNonce, hSent, hCounts]
    intro hSet
    refine (hReached hSet).imp_right ?_
    rintro ⟨hHeld, tx, hTx, hLe⟩
    exact ⟨hLock hHeld, tx, hAccepted.subset hTx, hLe⟩

theorem ClientState.Reached.count (h : s.Reached) (n : Nat) :
    { s with pendingCounts := s.pendingCounts ++ [n] }.Reached := by
  rcases h with ⟨m, hm, hLe⟩ | hSent
  · exact .inl ⟨m, List.mem_append_left _ hm, hLe⟩
  · exact .inr hSent

theorem ClientState.NoncesOk.count (h : s.NoncesOk config) {n : Nat} (hn : n < nonceUninitialized) :
    { s with pendingCounts := s.pendingCounts ++ [n] }.NoncesOk config where
  accepted := h.accepted
  increasing := h.increasing
  below := h.below
  unset := h.unset
  counts m hm := by
    rcases List.mem_append.mp hm with hOld | hNew
    · exact h.counts m hOld
    · rwa [List.mem_singleton.mp hNew]
  small := h.small
  reached hSet := (h.reached hSet).imp (fun hReached => hReached.count n) id

theorem ClientState.NoncesOk.store (h : s.NoncesOk config) (hUnset : s.nonce = nonceUninitialized)
    {n : Nat} (hn : n ∈ s.pendingCounts) : { s with nonce := n }.NoncesOk config where
  accepted := h.accepted
  increasing := h.increasing
  below x hx := by
    have hNone : x ∈ s.sent := hx
    rw [h.unset hUnset] at hNone
    cases hNone
  unset _ := h.unset hUnset
  counts := h.counts
  small := Nat.le_of_lt (h.counts n hn)
  reached _ := .inl (.inl ⟨n, hn, Nat.le_refl _⟩)

theorem ClientState.Reached.ratchet {n : Nat} (hn : n ∈ s.pendingCounts) :
    { s with nonce := max s.nonce n }.Reached ∨ max s.nonce n = s.nonce := by
  by_cases hUp : s.nonce ≤ n
  · exact .inl (.inl ⟨n, hn, Nat.max_le.mpr ⟨hUp, Nat.le_refl _⟩⟩)
  · exact .inr (by omega)

theorem ClientState.NoncesOk.ratchet (h : s.NoncesOk config) {n : Nat} (hn : n ∈ s.pendingCounts) :
    { s with nonce := max s.nonce n }.NoncesOk config ∧
      s.CountsOn { s with nonce := max s.nonce n } := by
  have hSmall := h.small
  have hCount := h.counts n hn
  constructor
  · constructor
    · exact h.accepted
    · exact h.increasing
    · exact fun x hx => Nat.lt_of_lt_of_le (h.below x hx) (Nat.le_max_left _ _)
    · intro (hUnset : max s.nonce n = nonceUninitialized)
      exact h.unset (by omega)
    · exact h.counts
    · exact Nat.max_le.mpr ⟨hSmall, Nat.le_of_lt hCount⟩
    · intro (hSet : max s.nonce n ≠ nonceUninitialized)
      rcases ClientState.Reached.ratchet hn with hReached | hStays
      · exact .inl hReached
      · rw [hStays] at hSet ⊢
        exact h.reached hSet
  · intro hSet
    exact ⟨by dsimp only; omega, Nat.le_max_left _ _⟩

theorem ClientState.NoncesOk.commit (h : s.NoncesOk config) (hSet : s.nonce ≠ nonceUninitialized)
    (hHeld : s.nonce ≠ maxU64 - 1) (hLocked : s.submitLock ≠ none)
    (hAt : ∃ tx ∈ s.accepted, tx.input.isSome = true ∧ tx.nonce = s.nonce) :
    (s.commit s.nonce).nonce = s.nonce + 1 ∧ s.nonce + 1 ≠ nonceUninitialized ∧
      (s.commit s.nonce).NoncesOk config := by
  have hSmall := h.small
  have hNext : (s.commit s.nonce).nonce = s.nonce + 1 := by
    unfold ClientState.commit
    have hMod : (s.nonce + 1) % 2 ^ 64 = s.nonce + 1 := by
      apply Nat.mod_eq_of_lt
      unfold nonceUninitialized maxU64 at hSmall hSet
      omega
    simp only [hMod]
    omega
  have hBeyond : s.nonce + 1 ≠ nonceUninitialized := by
    unfold nonceUninitialized maxU64 at *
    omega
  refine ⟨hNext, hBeyond, ?_⟩
  constructor
  · exact h.accepted
  · exact h.increasing
  · intro x hx
    rw [hNext]
    exact Nat.lt_succ_of_lt (h.below x hx)
  · intro hUnset
    rw [hNext] at hUnset
    exact absurd hUnset hBeyond
  · exact h.counts
  · rw [hNext]
    omega
  · intro _
    obtain ⟨tx, hTx, hCall, hNonce⟩ := hAt
    refine .inr ⟨hLocked, tx, hTx, hCall, ?_⟩
    rw [hNext, hNonce]

/-- What the call that holds the lock may return as sent: an accepted transaction at the nonce below
the counter, and above all that were sent before. -/
structure ClientState.Due (config : ClientConfig) (s : ClientState) (x : SubmittedTx) : Prop where
  accepted : s.Accepted config (s.sent ++ [x])
  above : ∀ y ∈ s.sent, y.nonce < x.nonce
  next : s.nonce = x.nonce + 1
  set : s.nonce ≠ nonceUninitialized

def ClientState.MayReport (config : ClientConfig) (s : ClientState) : Option SubmittedTx → Prop
  | none => s.nonce ≠ nonceUninitialized → s.Reached
  | some x => s.Due config x

theorem ClientState.NoncesOk.unlock (h : s.NoncesOk config) {reported : Option SubmittedTx}
    (hReport : s.MayReport config reported) :
    { s with submitLock := none, sent := s.sent ++ reported.toList }.NoncesOk config := by
  cases reported with
  | none =>
    rw [Option.toList_none, List.append_nil]
    obtain ⟨hTaken, hIncreasing, hBelow, hUnset, hCount, hSmall, -⟩ := h
    exact ⟨hTaken, hIncreasing, hBelow, hUnset, hCount, hSmall, fun hSet => .inl (hReport hSet)⟩
  | some x =>
    have hMem : ∀ {y}, y ∈ s.sent ++ [x] → y ∈ s.sent ∨ y = x := fun hy =>
      (List.mem_append.mp hy).imp_right List.mem_singleton.mp
    constructor
    · exact hReport.accepted
    · rw [Option.toList_some, List.map_append, List.pairwise_append]
      refine ⟨h.increasing, List.pairwise_singleton _ _, fun m hm n hn => ?_⟩
      obtain ⟨y, hy, rfl⟩ := List.mem_map.mp hm
      rw [List.mem_singleton.mp hn]
      exact hReport.above y hy
    · intro y hy
      rcases hMem hy with hOld | rfl
      · exact h.below y hOld
      · exact Nat.lt_of_lt_of_eq (Nat.lt_succ_self _) hReport.next.symm
    · exact fun hUnset => absurd hUnset hReport.set
    · exact h.counts
    · exact h.small
    · refine fun _ => .inl (.inr ⟨x, List.mem_append_right _ (List.mem_singleton_self x), ?_⟩)
      exact Nat.le_of_eq hReport.next

end Counter

section Discipline

variable {t : TaskId}

/-- The client with no pending count at the mark, and nothing recorded from the value before it. -/
abbrev countedClient (config : ClientConfig) := client config countsHeld

/-- The counter is set and moved by the task that holds the lock. -/
def ClientOp.Serialised (config : ClientConfig) (t : TaskId) (s : ClientState) : ClientOp → Prop
  | .storeNonce n => s.submitLock = some t ∧ s.nonce = nonceUninitialized ∧ n ∈ s.pendingCounts
  | .maxNonce n => s.submitLock = some t ∧ n ∈ s.pendingCounts
  | .commitNonce n => s.submitLock = some t ∧ n = s.nonce ∧ s.nonce ≠ nonceUninitialized ∧
    ∃ tx ∈ s.accepted, tx.input.isSome = true ∧ tx.nonce = s.nonce
  | .lockSubmit task => task = t
  | .unlockSubmit task reported => task = t ∧ s.MayReport config reported
  | _ => True

/-- What the holder of the lock relies on: the lock, the counter and what is sent are its own. -/
structure ClientState.Guarded (t : TaskId) (s s' : ClientState) : Prop where
  held : s.submitLock = some t →
    s'.submitLock = some t ∧ s'.nonce = s.nonce ∧ s'.sent = s.sent
  counts : s.pendingCounts ⊆ s'.pendingCounts
  accepted : s.accepted <+: s'.accepted

theorem ClientState.Guarded.of_eq (hLock : s'.submitLock = s.submitLock)
    (hNonce : s'.nonce = s.nonce) (hSent : s'.sent = s.sent)
    (hCounts : s'.pendingCounts = s.pendingCounts) (hAccepted : s.accepted <+: s'.accepted) :
    s.Guarded t s' := by
  refine ⟨fun hHeld => ⟨hLock.trans hHeld, hNonce, hSent⟩, ?_, hAccepted⟩
  rw [hCounts]
  exact List.Subset.refl _

theorem ClientState.Guarded.refl (s : ClientState) : s.Guarded t s :=
  .of_eq rfl rfl rfl rfl List.prefix_rfl

theorem ClientState.Guarded.of_other (hOther : s.submitLock ≠ some t)
    (hCounts : s'.pendingCounts = s.pendingCounts) (hAccepted : s'.accepted = s.accepted) :
    s.Guarded t s' := by
  refine ⟨fun hHeld => absurd hHeld hOther, ?_, ?_⟩
  · rw [hCounts]
    exact List.Subset.refl _
  · rw [hAccepted]

theorem ClientState.Guarded.trans {s1 s2 s3 : ClientState} (h : s1.Guarded t s2)
    (h' : s2.Guarded t s3) : s1.Guarded t s3 := by
  refine ⟨fun hHeld => ?_, List.Subset.trans h.counts h'.counts,
    h.accepted.trans h'.accepted⟩
  obtain ⟨hHeld2, hNonce2, hSent2⟩ := h.held hHeld
  obtain ⟨hHeld3, hNonce3, hSent3⟩ := h'.held hHeld2
  exact ⟨hHeld3, hNonce3.trans hNonce2, hSent3.trans hSent2⟩

def noncesDiscipline (config : ClientConfig) : Discipline ClientState TaskId ClientOp where
  inv := ClientState.NoncesOk config
  pre t s o := o.Serialised config t s
  rely := ClientState.Guarded

abbrev KeepsNonces {α : Type} (config : ClientConfig) (t : TaskId) (post : α → ClientState → Prop)
    (p : ClientAct α) (s : ClientState) : Prop :=
  (noncesDiscipline config).Keeps (countedClient config) t post p s

theorem noncesOk_of_performs {o : ClientOp} {r : ClientRes o} (hInv : s.NoncesOk config)
    (hPre : o.Serialised config t s) (h : (countedClient config).Performs t s o r s') :
    s'.NoncesOk config ∧ s.CountsOn s' := by
  have hEffect := effect_of_performs h
  obtain ⟨c, hHeld, hExec⟩ := h
  have hSame : ∀ {s'' : ClientState}, s''.nonce = s.nonce → s''.sent = s.sent →
      s''.pendingCounts = s.pendingCounts → s.accepted <+: s''.accepted →
      s''.submitLock = s.submitLock → s''.NoncesOk config ∧ s.CountsOn s'' :=
    fun hNonce hSent hCounts hAccepted hLock =>
      ⟨hInv.congr hNonce hSent hCounts hAccepted fun hSome => by rwa [hLock], .of_eq hNonce⟩
  cases o with
  | getPendingCount endpoint =>
    rcases exec_getPendingCount hExec with ⟨n, -, rfl, hLe, rfl⟩ | ⟨e, -, rfl⟩
    · exact ⟨hInv.count (Nat.lt_of_le_of_ne hLe hHeld), .of_eq rfl⟩
    · exact ⟨hInv, .of_eq rfl⟩
  | storeNonce n =>
    obtain rfl := hEffect
    obtain ⟨-, hUnset, hn⟩ := hPre
    exact ⟨hInv.store hUnset hn, fun hSet => absurd hUnset hSet⟩
  | maxNonce n =>
    obtain rfl := hEffect
    exact hInv.ratchet hPre.2
  | commitNonce n =>
    obtain rfl := hEffect
    obtain ⟨hLocked, rfl, hSet, hAt⟩ := hPre
    obtain ⟨hNext, hBeyond, hOk⟩ := hInv.commit hSet hHeld (by rw [hLocked]; exact nofun) hAt
    refine ⟨hOk, fun _ => ?_⟩
    rw [hNext]
    exact ⟨hBeyond, Nat.le_succ _⟩
  | lockSubmit task =>
    obtain ⟨-, rfl⟩ := hEffect
    exact ⟨hInv.congr rfl rfl rfl List.prefix_rfl fun _ => nofun, .of_eq rfl⟩
  | unlockSubmit task reported =>
    obtain ⟨-, rfl⟩ := hEffect
    exact ⟨hInv.unlock hPre.2, .of_eq rfl⟩
  | sendRawTransaction endpoint tx =>
    obtain ⟨taken, rfl⟩ := hEffect
    exact hSame rfl rfl rfl (List.prefix_append _ _) rfl
  | _ =>
    obtain rfl := hEffect
    exact hSame rfl rfl rfl List.prefix_rfl rfl

theorem guarded_of_effect {o : ClientOp} {t' : TaskId} (hTask : t ≠ t')
    (hPre : o.Serialised config t s) (h : ClientEffect s s' o) : s.Guarded t' s' := by
  have hOther : s.submitLock = some t → s.submitLock ≠ some t' := by
    intro hMine hHeld
    exact hTask (Option.some.inj (hMine.symm.trans hHeld))
  cases o with
  | getPendingCount endpoint =>
    rcases h with rfl | ⟨n, rfl⟩
    · exact .refl _
    · exact ⟨fun hHeld => ⟨hHeld, rfl, rfl⟩, List.subset_append_left _ _, List.prefix_rfl⟩
  | storeNonce n | maxNonce n | commitNonce n =>
    obtain rfl := h
    exact .of_other (hOther hPre.1) rfl rfl
  | lockSubmit task =>
    obtain ⟨hFree, rfl⟩ := h
    exact .of_other (by rw [hFree]; exact nofun) rfl rfl
  | unlockSubmit task reported =>
    obtain ⟨hMine, rfl⟩ := h
    obtain rfl : task = t := hPre.1
    exact .of_other (hOther hMine) rfl rfl
  | sendRawTransaction endpoint tx =>
    obtain ⟨taken, rfl⟩ := h
    exact .of_eq rfl rfl rfl rfl (List.prefix_append _ _)
  | _ =>
    obtain rfl := h
    exact .of_eq rfl rfl rfl rfl List.prefix_rfl

theorem noncesDiscipline_sound : (noncesDiscipline config).Sound (countedClient config) where
  refl _ _ := .refl _
  trans := ClientState.Guarded.trans
  keeps hInv hPre hPerforms := (noncesOk_of_performs hInv hPre hPerforms).1
  cross hTask _ hPre hPerforms :=
    guarded_of_effect (hTask.resolve_right nofun) hPre (effect_of_performs hPerforms)
  env hInv hEnv := by
    rcases move_cases hEnv with ⟨now, -, rfl⟩ | ⟨head, -, rfl⟩
    · exact ⟨hInv.congr rfl rfl rfl List.prefix_rfl id,
        fun _ => .of_eq rfl rfl rfl rfl List.prefix_rfl⟩
    · exact ⟨hInv.congr rfl rfl rfl List.prefix_rfl id,
        fun _ => .of_eq rfl rfl rfl rfl List.prefix_rfl⟩

/-- The operations under the lock that leave the counter as it is. -/
def ClientOp.Aside : ClientOp → Prop
  | .getPendingCount _ | .getGasPrices .. | .sendRawTransaction .. => True
  | o => o.ofPool

theorem aside_of_ofPool (o : ClientOp) (h : o.ofPool) : o.Aside := by
  cases o <;> trivial

/-- The task holds the lock, and the counter stands at `k`, which was reported or follows what was
sent. -/
structure ClientState.Counter (t : TaskId) (k : Nat) (s : ClientState) : Prop where
  held : s.submitLock = some t
  at' : s.nonce = k
  reached : s.nonce ≠ nonceUninitialized → s.Reached

theorem ClientState.Counter.guarded {k : Nat} (h : s.Counter t k) (hRely : s.Guarded t s') :
    s'.Counter t k := by
  obtain ⟨hHeld, hNonce, hSent⟩ := hRely.held h.held
  refine ⟨hHeld, hNonce.trans h.at', ?_⟩
  unfold ClientState.Reached
  rw [hNonce, hSent]
  refine fun hSet => (h.reached hSet).imp_left ?_
  rintro ⟨n, hn, hLe⟩
  exact ⟨n, hRely.counts hn, hLe⟩

theorem ClientState.Counter.aside {k : Nat} (h : s.Counter t k) {o : ClientOp} (ho : o.Aside)
    (hEffect : ClientEffect s s' o) : s'.Counter t k := by
  obtain ⟨hHeld, hAt, hReached⟩ := h
  cases o with
  | getPendingCount endpoint =>
    rcases hEffect with rfl | ⟨n, rfl⟩
    · exact ⟨hHeld, hAt, hReached⟩
    · exact ⟨hHeld, hAt, fun hSet => (hReached hSet).count n⟩
  | sendRawTransaction endpoint tx =>
    obtain ⟨taken, rfl⟩ := hEffect
    exact ⟨hHeld, hAt, hReached⟩
  | rotate | instant | sleepUntil | loadIndex | getGasPrices =>
    obtain rfl := hEffect
    exact ⟨hHeld, hAt, hReached⟩
  | _ => exact ho.elim

theorem ClientState.Counter.store {k n : Nat} (h : s.Counter t k) (hn : n ∈ s.pendingCounts) :
    ClientState.Counter t n { s with nonce := n } :=
  ⟨h.held, rfl, fun _ => .inl ⟨n, hn, Nat.le_refl _⟩⟩

theorem ClientState.Counter.ratchet {k n : Nat} (h : s.Counter t k) (hn : n ∈ s.pendingCounts) :
    ClientState.Counter t (max s.nonce n) { s with nonce := max s.nonce n } := by
  refine ⟨h.held, rfl, fun (hSet : max s.nonce n ≠ nonceUninitialized) => ?_⟩
  rcases ClientState.Reached.ratchet hn with hReached | hStays
  · exact hReached
  · rw [hStays] at hSet ⊢
    exact h.reached hSet

theorem lasts_counter (k : Nat) :
    Lasts (noncesDiscipline config) (countedClient config) t (ClientState.Counter t k) where
  sound := noncesDiscipline_sound
  stable _ hRely h := h.guarded hRely
  pre o ho _ _ _ := by cases o <;> trivial
  keeps ho hPerforms h := h.aside (aside_of_ofPool _ ho) (effect_of_performs hPerforms)

theorem keeps_aside {α : Type} {k : Nat} {p : ClientAct α} (hp : p.OnlyOps ClientOp.Aside)
    (h : s.Counter t k) :
    KeepsNonces config t (fun _ => ClientState.Counter t k) p s :=
  .under noncesDiscipline_sound (fun _ hRely h => h.guarded hRely)
    (fun o ho _ _ _ => by cases o <;> trivial)
    (fun ho hPerforms h => h.aside ho (effect_of_performs hPerforms)) hp h

theorem stays_reported : Stays (noncesDiscipline config) t fun n s => n ∈ s.pendingCounts :=
  fun _ _ _ _ hRely hn => hRely.counts hn

theorem keeps_fetchChainNonce {k : Nat} (h : s.Counter t k) :
    KeepsNonces config t (Answers (ClientState.Counter t k) fun n s => n ∈ s.pendingCounts)
      (fetchChainNonce config) s := by
  refine keeps_executeWithEndpoint (lasts_counter k) stays_reported (fun endpoint s h => ?_) _ h
  refine .perform noncesDiscipline_sound fun s1 _ hRely1 => ⟨trivial, ?_⟩
  intro (r : Except TransportError Nat) s2 hPerforms s3 _ hRely3
  have hHere : s2.Counter t k := (h.guarded hRely1).aside (o := .getPendingCount endpoint) trivial
    (effect_of_performs hPerforms)
  refine ⟨hHere.guarded hRely3, ?_⟩
  rintro n rfl
  obtain ⟨c, -, hExec⟩ := hPerforms
  rcases exec_getPendingCount hExec with ⟨n', hn, -, -, rfl⟩ | ⟨e, hError, -⟩
  · obtain rfl := Except.ok.inj hn
    exact hRely3.counts (List.mem_append_right _ (List.mem_singleton_self _))
  · cases hError

/-- The slot for the next submission is where the counter stands, which is then set. -/
theorem keeps_nextNonce {k : Nat} (h : s.Counter t k) :
    KeepsNonces config t
      (fun r s => (∃ k, s.Counter t k) ∧ ∀ n, r = .ok n → s.Counter t n ∧ n ≠ nonceUninitialized)
      (nextNonce config) s := by
  have hSound : (noncesDiscipline config).Sound (countedClient config) := noncesDiscipline_sound
  have hFound : ∀ {n s}, s.Counter t n → n ≠ nonceUninitialized →
      KeepsNonces config t
        (fun r s => (∃ k, s.Counter t k) ∧
          ∀ n, r = .ok n → s.Counter t n ∧ n ≠ nonceUninitialized)
        (pure (.ok n : Except ClientError Nat)) s := by
    intro n s hHere hSet
    refine .ret fun s' _ hRely => ⟨⟨n, hHere.guarded hRely⟩, ?_⟩
    rintro n' hn'
    obtain rfl := Except.ok.inj hn'
    exact ⟨hHere.guarded hRely, hSet⟩
  unfold nextNonce
  refine .bind hSound (.perform hSound fun s1 _ hRely1 => ⟨trivial, ?_⟩)
  intro (current : Nat) s2 hPerforms s3 _ hRely3
  have hHere : s3.Counter t current := by
    obtain ⟨c, -, hExec⟩ := hPerforms
    obtain ⟨rfl, rfl⟩ := exec_loadNonce hExec
    have hHeld := h.guarded hRely1
    exact ClientState.Counter.guarded ⟨hHeld.held, rfl, hHeld.reached⟩ hRely3
  by_cases hSet : current ≠ nonceUninitialized
  · rw [if_pos hSet]
    exact hFound hHere hSet
  · rw [if_neg hSet]
    obtain rfl := not_ne_iff.mp hSet
    refine .bind hSound ((keeps_fetchChainNonce hHere).mono fun r s4 _ h4 => ?_)
    cases r with
    | error e => exact .ret fun _ _ hRely => ⟨⟨_, h4.1.guarded hRely⟩, nofun⟩
    | ok n =>
      refine .bind hSound (.perform hSound fun s5 hInv5 hRely5 => ⟨?_, ?_⟩)
      · have h5 := h4.1.guarded hRely5
        exact ⟨h5.held, h5.at', hRely5.counts (h4.2 n rfl)⟩
      · intro (_ : Unit) s6 hPerforms s7 _ hRely7
        obtain rfl := effect_of_performs hPerforms
        have hReported : n ∈ s5.pendingCounts := hRely5.counts (h4.2 n rfl)
        have hStored := (h4.1.guarded hRely5).store hReported
        exact hFound (hStored.guarded hRely7) (Nat.ne_of_lt (hInv5.counts n hReported))

theorem keeps_resyncForAttempt {k : Nat} (left : Nat) (h : s.Counter t k) :
    KeepsNonces config t (fun _ s => ∃ k, s.Counter t k)
      (resyncForAttempt config left) s := by
  have hSound : (noncesDiscipline config).Sound (countedClient config) := noncesDiscipline_sound
  unfold resyncForAttempt
  split
  · refine .bind hSound ((keeps_fetchChainNonce h).mono fun r s1 _ h1 => ?_)
    cases r with
    | error e => exact .ret fun _ _ hRely => ⟨k, h1.1.guarded hRely⟩
    | ok n =>
      refine .bind hSound (.perform hSound fun s2 _ hRely2 => ⟨?_, ?_⟩)
      · exact ⟨(h1.1.guarded hRely2).held, hRely2.counts (h1.2 n rfl)⟩
      · intro (_ : Unit) s3 hPerforms s4 _ hRely4
        obtain rfl := effect_of_performs hPerforms
        have hMoved := (h1.1.guarded hRely2).ratchet (hRely2.counts (h1.2 n rfl))
        exact .ret fun _ _ hRely5 => ⟨_, (hMoved.guarded hRely4).guarded hRely5⟩
  · exact .ret fun _ _ hRely => ⟨k, h.guarded hRely⟩

/-- A transaction that an endpoint accepted follows those sent so far. -/
structure ClientState.Took (config : ClientConfig) (t : TaskId) (signed : SignedTx)
    (s : ClientState) : Prop where
  held : s.submitLock = some t
  mem : signed ∈ s.accepted
  accepted : s.Accepted config (s.sent ++ [signed.submitted config])

theorem ClientState.Took.guarded {signed : SignedTx} (h : s.Took config t signed)
    (hRely : s.Guarded t s') : s'.Took config t signed := by
  obtain ⟨hHeld, -, hSent⟩ := hRely.held h.held
  refine ⟨hHeld, hRely.accepted.subset h.mem, ?_⟩
  rw [hSent]
  exact h.accepted.mono hRely.accepted

theorem keeps_sendEndpoint {signed : SignedTx} (hCall : signed.input.isSome = true) {k : Nat}
    (endpoint : Nat) (h : s.Counter t k) :
    KeepsNonces config t
      (Answers (ClientState.Counter t k) fun _ s => s.Took config t signed)
      (sendEndpoint signed endpoint) s := by
  have hSound : (noncesDiscipline config).Sound (countedClient config) := noncesDiscipline_sound
  unfold sendEndpoint
  refine .bind hSound (.perform hSound fun s1 hInv1 hRely1 => ⟨trivial, ?_⟩)
  intro (r : Except TransportError Unit) s2 hPerforms s3 _ hRely3
  have hHere : s3.Counter t k := ((h.guarded hRely1).aside (o := .sendRawTransaction endpoint signed)
    trivial (effect_of_performs hPerforms)).guarded hRely3
  have hTook : accepts r = true → s3.Took config t signed := by
    intro hAccepts
    obtain ⟨c, -, hExec⟩ := hPerforms
    obtain rfl := exec_sendRawTransaction hExec
    rw [if_pos hAccepts] at hRely3
    obtain ⟨txs, hTaken, hCalls, hSent⟩ := hInv1.accepted
    refine ClientState.Took.guarded (s := { s1 with
      handed := s1.handed ++ [signed]
      accepted := s1.accepted ++ [signed] }) ⟨(h.guarded hRely1).held, ?_, txs ++ [signed],
      hTaken.append_right [signed], fun tx hTx => ?_, ?_⟩ hRely3
    · exact List.mem_append_right _ (List.mem_singleton_self _)
    · rcases List.mem_append.mp hTx with hOld | hNew
      · exact hCalls tx hOld
      · rwa [List.mem_singleton.mp hNew]
    · rw [List.map_append, hSent]
      rfl
  have hOk : s3.Took config t signed → KeepsNonces config t
      (Answers (ClientState.Counter t k) fun _ s => s.Took config t signed)
      (pure (.ok () : Except TransportError Unit)) s3 := fun hAccepted =>
    (lasts_counter k).ok (fun _ _ _ _ hRely h => h.guarded hRely) hHere hAccepted
  cases r with
  | ok _ => exact hOk (hTook rfl)
  | error e =>
    dsimp only
    split
    · rename_i hKnown
      exact hOk (hTook hKnown)
    · exact (lasts_counter k).error hHere

theorem nonce_of_build {tx : TransactionRequest} {signed : SignedTx} (h : tx.build = some signed) :
    tx.nonce = some signed.nonce ∧ signed.input = tx.input := by
  simp only [TransactionRequest.build, bind, Option.bind_eq_some_iff, pure, Option.some.injEq] at h
  obtain ⟨gasLimit, -, fee, -, priorityFee, -, chain, -, nonce, hNonce, rfl⟩ := h
  exact ⟨hNonce, rfl⟩

/-- What is sent of a call is accepted, under the hash that is returned, or the counter stands where
it did. -/
theorem keeps_sendTransaction (tx : TransactionRequest) (hCall : tx.input.isSome = true) {k : Nat}
    (h : s.Counter t k) :
    KeepsNonces config t
      (Answers (ClientState.Counter t k) fun hash s => ∃ signed, tx.build = some signed ∧
        hash = config.txHash signed ∧ s.Took config t signed) (sendTransaction config tx) s := by
  have hSound : (noncesDiscipline config).Sound (countedClient config) := noncesDiscipline_sound
  have hLasts : Lasts (noncesDiscipline config) (countedClient config) t
    (ClientState.Counter t k) := lasts_counter k
  unfold sendTransaction
  split
  · exact hLasts.error h
  · split
    · exact hLasts.error h
    · rename_i signed hBuild
      have hSigned : signed.input.isSome = true := by rwa [(nonce_of_build hBuild).2]
      refine .bind hSound ((keeps_executeWithEndpoint hLasts (fun _ _ _ _ hRely h => h.guarded hRely)
        (fun endpoint _ h => keeps_sendEndpoint hSigned endpoint h) _ h).mono fun r s1 _ h1 => ?_)
      split
      · refine hLasts.ok (fun _ _ _ _ hRely h => ?_) h1.1 ⟨signed, hBuild, rfl, h1.2 () rfl⟩
        obtain ⟨signed', hBuild', hHash, hTook⟩ := h
        exact ⟨signed', hBuild', hHash, hTook.guarded hRely⟩
      · exact hLasts.error h1.1
      · exact hLasts.error h1.1

/-- The call that holds the lock may return this. -/
def ClientState.Ends (config : ClientConfig) (t : TaskId) (reported : Option SubmittedTx)
    (s : ClientState) : Prop :=
  s.submitLock = some t ∧ s.MayReport config reported

theorem ClientState.Ends.guarded {reported : Option SubmittedTx} (h : s.Ends config t reported)
    (hRely : s.Guarded t s') : s'.Ends config t reported := by
  obtain ⟨hHeld, hReport⟩ := h
  cases reported with
  | none =>
    have hCounter : s'.Counter t s.nonce := ClientState.Counter.guarded ⟨hHeld, rfl, hReport⟩ hRely
    exact ⟨hCounter.held, hCounter.reached⟩
  | some x =>
    obtain ⟨hHeld', hNonce, hSent⟩ := hRely.held hHeld
    obtain ⟨hAccepted, hAbove, hNext, hSet⟩ := hReport
    refine ⟨hHeld', ?_, ?_, ?_, ?_⟩
    · rw [hSent]
      exact hAccepted.mono hRely.accepted
    · rwa [hSent]
    · rwa [hNonce]
    · rwa [hNonce]

theorem ClientState.Counter.ends {k : Nat} (h : s.Counter t k) : s.Ends config t none :=
  ⟨h.held, h.reached⟩

/-- The attempts at a nonce, by induction on those left.  The lock is held throughout, so the counter
is still where the submission took its nonce from when that is committed. -/
theorem keeps_signAndSendLocked {tx : TransactionRequest} (hCall : tx.input.isSome = true)
    (left k : Nat) (h : s.Counter t k) :
    KeepsNonces config t (fun r s => s.Ends config t r.toOption)
      (signAndSendLocked config tx left) s := by
  have hSound : (noncesDiscipline config).Sound (countedClient config) := noncesDiscipline_sound
  have hFails : ∀ {k s e}, s.Counter t k → KeepsNonces config t (fun r s => s.Ends config t r.toOption)
      (pure (.error e : Except ClientError SubmittedTx)) s :=
    fun h => .ret fun _ _ hRely => (h.guarded hRely).ends
  induction left generalizing s k with
  | zero => exact hFails h
  | succ left ih =>
    unfold signAndSendLocked
    refine .bind hSound ((keeps_resyncForAttempt _ h).mono fun synced s1 _ h1 => ?_)
    obtain ⟨k1, h1⟩ := h1
    cases synced with
    | error e => exact hFails h1
    | ok _ =>
      refine .bind hSound ((keeps_nextNonce h1).mono fun r s2 _ h2 => ?_)
      obtain ⟨⟨k2, h2⟩, hNonce⟩ := h2
      cases r with
      | error e => exact hFails h2
      | ok nonce =>
        obtain ⟨hHere, hSet⟩ := hNonce nonce rfl
        refine .bind hSound ((keeps_sendTransaction { tx with nonce := some nonce } hCall
          hHere).mono fun r s3 _ h3 => ?_)
        obtain ⟨h3, hTook⟩ := h3
        cases r with
        | ok hash =>
          obtain ⟨signed, hBuild, rfl, hTaken⟩ := hTook hash rfl
          obtain ⟨hSigned, hInput⟩ := nonce_of_build hBuild
          obtain rfl : nonce = signed.nonce := Option.some.inj hSigned
          refine .bind hSound (.perform hSound fun s4 hInv4 hRely4 => ?_)
          have h4 := h3.guarded hRely4
          have hTook4 := hTaken.guarded hRely4
          have hAt : s4.nonce = signed.nonce := h4.at'
          refine ⟨⟨h4.held, hAt.symm, by rwa [hAt], signed, hTook4.mem, by rwa [hInput], hAt.symm⟩,
            ?_⟩
          intro (_ : Unit) s5 hPerforms s6 _ hRely6
          refine .ret fun s7 _ hRely7 => ?_
          have hCommitted : s5.Ends config t (some (signed.submitted config)) := by
            have hEffect := effect_of_performs hPerforms
            obtain ⟨c, hHeld, -⟩ := hPerforms
            obtain rfl : s5 = s4.commit signed.nonce := hEffect
            obtain ⟨hNext, hBeyond, -⟩ := hInv4.commit (by rwa [hAt]) hHeld
              (by rw [h4.held]; exact Option.some_ne_none _)
              ⟨signed, hTook4.mem, by rwa [hInput], hAt.symm⟩
            rw [hAt] at hNext hBeyond
            refine ⟨h4.held, hTook4.accepted, fun y hy => ?_, hNext, by rwa [hNext]⟩
            exact Nat.lt_of_lt_of_eq (hInv4.below y hy) hAt
          exact (hCommitted.guarded hRely6).guarded hRely7
        | error e =>
          dsimp only
          split
          · exact ih nonce h3
          · exact hFails h3

/-- The attempts wait for nothing once a nonce is committed. -/
theorem settles_signAndSendLocked (tx : TransactionRequest) (left : Nat) :
    (signAndSendLocked config tx left).Settles ClientOp.waits ClientOp.ofAttempts := by
  induction left with
  | zero => trivial
  | succ left ih =>
    unfold signAndSendLocked
    refine .bind ((onlyOps_resyncForAttempt _).mono ofAttempts_of_ofNonces) fun synced => ?_
    cases synced with
    | error e => trivial
    | ok _ =>
      refine .bind (onlyOps_nextNonce.mono ofAttempts_of_ofNonces) fun r => ?_
      cases r with
      | error e => trivial
      | ok nonce =>
        refine .bind (onlyOps_sendTransaction (fun o ho => ofAttempts_of_ofNonces o
          (ofNonces_of_ofPool o ho)) fun _ _ _ => trivial) fun r => ?_
        cases r with
        | ok hash => exact .inr ⟨rfl, fun _ => trivial⟩
        | error e =>
          dsimp only
          split
          · exact ih
          · trivial

theorem counter_of_ofAttempts {o : ClientOp} {r : ClientRes o} (ho : o.ofAttempts)
    (hPre : o.Serialised config t s) (h : (countedClient config).Performs t s o r s')
    (hCounter : ∃ k, s.Counter t k) : ∃ k, s'.Counter t k := by
  obtain ⟨k, hCounter⟩ := hCounter
  have hEffect := effect_of_performs h
  cases o with
  | storeNonce n =>
    obtain rfl := hEffect
    exact ⟨n, hCounter.store hPre.2.2⟩
  | maxNonce n =>
    obtain rfl := hEffect
    exact ⟨_, hCounter.ratchet hPre.2⟩
  | loadNonce =>
    obtain rfl := hEffect
    exact ⟨k, hCounter⟩
  | getPendingCount | getGasPrices | sendRawTransaction | instant | sleepUntil | loadIndex
  | rotate => exact ⟨k, hCounter.aside (by trivial) hEffect⟩
  | _ => exact ho.elim

theorem keeps_locked {β : Type} {reported : β → Option SubmittedTx} {work : ClientAct β}
    (hSettles : work.Settles ClientOp.waits ClientOp.ofAttempts)
    (hWork : ∀ s k, s.Counter t k → KeepsNonces config t
      (fun b s => s.Ends config t (reported b)) work s) :
    KeepsNonces config t (fun _ _ => True) (underSubmitLock t reported work) s := by
  refine keeps_underSubmitLock (P := fun s => ∃ k, s.Counter t k)
    (R := fun b s => s.Ends config t (reported b)) noncesDiscipline_sound
    (fun _ _ => rfl) (fun s hInv hFree => ?_) (fun _ _ => trivial) (fun s _ h => ?_)
    (fun b s _ h => ⟨rfl, h.2⟩) (fun _ hRely h => ?_) (fun _ hRely h => h.guarded hRely)
    (fun ho _ hPre hPerforms h => counter_of_ofAttempts ho hPre hPerforms h) hSettles
    fun s h => ?_
  · refine ⟨s.nonce, rfl, rfl, fun hSet => ?_⟩
    rcases hInv.reached hSet with hReached | hSending
    · exact hReached
    · exact absurd hFree hSending.1
  · obtain ⟨k, h⟩ := h
    exact ⟨rfl, h.reached⟩
  · obtain ⟨k, h⟩ := h
    exact ⟨k, h.guarded hRely⟩
  · obtain ⟨k, h⟩ := h
    exact hWork s k h

theorem noncesDiscipline_starts : (noncesDiscipline config).Starts (countedClient config) := by
  have hSound : (noncesDiscipline config).Sound (countedClient config) := noncesDiscipline_sound
  have hCheck : ∀ {t s}, KeepsNonces config t (fun _ _ => True)
      (crossCheckSeenBlock config) s :=
    .of_onlyOps hSound (fun o ho _ _ => by cases o <;> trivial) onlyOps_crossCheckSeenBlock
  apply starts_of_calls hSound
  · intro t id s
    exact keeps_agreementOnChain hSound (fun o ho _ _ => by cases o <;> trivial)
      (fun _ => hCheck) id
  · intro t s
    exact keeps_latestBlockTimestamp hSound (fun o ho _ _ => by cases o <;> trivial)
      fun _ => hCheck
  · intro t call s
    refine keeps_sendToManager hSound (fun o ho _ _ => ?_) (fun tx s hCall _ => ?_)
      (fun nonce s => ?_) call
    · cases o <;> trivial
    · exact keeps_locked (settles_signAndSendLocked tx _) fun s k h =>
        keeps_signAndSendLocked hCall _ k h
    · have hFill : (fillLocked config nonce).OnlyOps ClientOp.Aside :=
        onlyOps_fillLocked aside_of_ofPool (fun _ => trivial) (fun _ _ => trivial) nonce
      refine keeps_locked (.of_onlyOps (hFill.mono fun o ho => by cases o <;> trivial))
        fun s k h => ?_
      exact (keeps_aside hFill h).mono fun _ _ _ h => h.ends

end Discipline

section Runs

/-- The submissions that return as sent are transactions the endpoints accepted, in the same order,
and their nonces increase; the counter does not go back once it is set, and it is never past the
counts reported and the nonces sent, but for a submission that is about to return; in every run in
which the counter does not come to the value that marks it as unset. -/
theorem nonces_sent_increase {config : ClientConfig} {now head : Nat}
    {c : (countedClient config).Config}
    (hRun : (countedClient config).Run (ClientState.new now head, []) c) :
    (∃ txs : List SignedTx, txs.Sublist c.1.accepted ∧ (∀ tx ∈ txs, tx.input.isSome = true) ∧
      txs.map (·.submitted config) = c.1.sent) ∧
    (c.1.sent.map (·.nonce)).Pairwise (· < ·) ∧
    (∀ c', (countedClient config).Run c c' → c.1.nonce ≠ nonceUninitialized →
      c'.1.nonce ≠ nonceUninitialized ∧ c.1.nonce ≤ c'.1.nonce) ∧
    (c.1.nonce ≠ nonceUninitialized →
      ((∃ n ∈ c.1.pendingCounts, c.1.nonce ≤ n) ∨ ∃ x ∈ c.1.sent, c.1.nonce ≤ x.nonce + 1) ∨
      (c.1.submitLock ≠ none ∧
        ∃ tx ∈ c.1.accepted, tx.input.isSome = true ∧ c.1.nonce ≤ tx.nonce + 1)) := by
  have hInit : (ClientState.new now head).NoncesOk config := by
    constructor
    · exact ⟨[], List.nil_sublist _, nofun, rfl⟩
    · exact .nil
    · exact nofun
    · exact fun _ => rfl
    · exact nofun
    · exact Nat.le_refl _
    · exact fun hSet => absurd rfl hSet
  obtain ⟨hInv, -⟩ := Discipline.run_restrict noncesDiscipline_sound noncesDiscipline_starts hInit
    hRun
  refine ⟨hInv.accepted, hInv.increasing, fun c' hLater => ?_, hInv.reached⟩
  apply Discipline.relates_of_run (R := ClientState.CountsOn) noncesDiscipline_sound
    noncesDiscipline_starts hInit (fun _ => .of_eq rfl) ClientState.CountsOn.trans ?_ ?_ hRun hLater
  · intro t s o r s' hInv hPre hPerforms
    exact (noncesOk_of_performs hInv hPre hPerforms).2
  · intro s e s' _ hMove
    rcases move_cases hMove with ⟨now, -, rfl⟩ | ⟨head, -, rfl⟩
    · exact .of_eq rfl
    · exact .of_eq rfl

/-- A submission that reads the pending count from the chain, and one that takes the counter on from
it. -/
def submitTwice (first : Nat) (then' : List ClientChoice) : ClientMoves :=
  .start (0, .offerViaManager []) ::
    takes 0 [.ok, .number 50000, .ok, .prices 3 1, .ok, .ok, .ok, .number first, .cut false, .ok, .ok,
      .ok, .cut false, .ok, .ok] ++
    .start (1, .offerViaManager []) ::
    takes 1 ([.ok, .number 50000, .ok, .prices 3 1, .ok, .ok] ++ then' ++
      [.ok, .ok, .cut false, .ok, .ok])

/-- The chain reports a pending count of 5, and two submissions are sent. -/
theorem two_nonces_sent : ∃ c,
    (countedClient (sampleClient 0)).Run (ClientState.new 0 100, []) c ∧
      c.1.accepted.map (·.nonce) = [5, 6] ∧ c.1.sent.map (·.nonce) = [5, 6] ∧
      (∃ txs : List SignedTx, txs.Sublist c.1.accepted ∧ (∀ tx ∈ txs, tx.input.isSome = true) ∧
        txs.map (·.submitted (sampleClient 0)) = c.1.sent) := by
  obtain ⟨c, hRun, hSent⟩ := exists_run (sampleClient 0) countsHeld (ClientState.new 0 100, [])
    (submitTwice 5 []) (fun c => decide (c.1.accepted.map (·.nonce) = [5, 6] ∧
      c.1.sent.map (·.nonce) = [5, 6])) (by decide +kernel)
  obtain ⟨hAccepted, hNonces⟩ := of_decide_eq_true hSent
  exact ⟨c, hRun, hAccepted, hNonces, (nonces_sent_increase hRun).1⟩

/-- The chain reports the pending count before the mark, and after a submission at it the counter
reads as unset: the next one takes its nonce from the count reported then. -/
theorem nonce_sent_goes_back : ∃ c,
    (client (sampleClient 0) fun _ _ _ _ => True).Run (ClientState.new 0 100, []) c ∧
      c.1.accepted.map (·.nonce) = [maxU64 - 1, 5] ∧ c.1.sent.map (·.nonce) = [maxU64 - 1, 5] ∧
      ¬ (c.1.sent.map (·.nonce)).Pairwise (· < ·) := by
  obtain ⟨c, hRun, hSent⟩ := exists_run (sampleClient 0) (fun _ _ _ _ => True)
    (ClientState.new 0 100, []) (submitTwice (maxU64 - 1) [.ok, .number 5, .cut false, .ok])
    (fun c => decide (c.1.accepted.map (·.nonce) = [maxU64 - 1, 5] ∧
      c.1.sent.map (·.nonce) = [maxU64 - 1, 5])) (by decide +kernel)
  obtain ⟨hAccepted, hNonces⟩ := of_decide_eq_true hSent
  refine ⟨c, hRun, hAccepted, hNonces, ?_⟩
  rw [hNonces]
  decide

end Runs

end AlloyClient

end Dipper
