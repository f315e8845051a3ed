import Dipper.ChainClient.Client

/-! What an operation of a client's task leaves, whatever it came out with. -/

namespace Dipper

namespace AlloyClient

def ClientEffect (s s' : ClientState) : ClientOp → Prop
  | .rotate => s' = { s with currentIndex := s.currentIndex + 1 }
  | .crossCheckDue => s' = { s with seenBlock := (s.seenBlock.crossCheckDue s.now).1 }
  | .advance block onlyEndpoint =>
    s' = { s with seenBlock := (s.seenBlock.advance block s.now onlyEndpoint).1 }
  | .confirm _ block => s' = { s with seenBlock := s.seenBlock.confirm block s.now }
  | .rememberHead endpoint head askedAt => s' = { s with
      endpointHeads := Function.update s.endpointHeads endpoint (some (head, askedAt)) }
  | .forgetHead endpoint =>
    s' = { s with endpointHeads := Function.update s.endpointHeads endpoint none }
  | .getPendingCount _ => s' = s ∨ ∃ n, s' = { s with pendingCounts := s.pendingCounts ++ [n] }
  | .sendRawTransaction _ tx => ∃ taken, s' =
      { s with handed := s.handed ++ [tx], accepted := s.accepted ++ taken }
  | .storeNonce nonce => s' = { s with nonce := nonce }
  | .maxNonce nonce => s' = { s with nonce := max s.nonce nonce }
  | .commitNonce nonce => s' = s.commit nonce
  | .lockSubmit task => s.submitLock = none ∧ s' = { s with submitLock := some task }
  | .unlockSubmit task reported => s.submitLock = some task ∧
      s' = { s with submitLock := none, sent := s.sent ++ reported.toList }
  | _ => s' = s

variable {s s' : ClientState} {c : ClientChoice}

theorem effect_of_map {β γ : Type} {x : Option β} {f : β → γ × ClientState} {r : γ}
    (h : x.map f = some (r, s')) : ∃ b, x = some b ∧ (f b).2 = s' := by
  obtain ⟨b, hb, hEq⟩ := Option.map_eq_some_iff.mp h
  exact ⟨b, hb, congrArg Prod.snd hEq⟩

theorem exec_clientEffect {o : ClientOp} {r : ClientRes o} (h : s.exec o c = some (r, s')) :
    ClientEffect s s' o := by
  cases o with
  | sleepUntil time =>
    obtain ⟨-, h⟩ := Option.ite_none_right_eq_some.mp h
    obtain ⟨_, _, hEq⟩ := effect_of_map h
    exact hEq.symm
  | lockSubmit task =>
    obtain ⟨hFree, h⟩ := Option.ite_none_right_eq_some.mp h
    obtain ⟨_, _, hEq⟩ := effect_of_map h
    exact ⟨hFree, hEq.symm⟩
  | unlockSubmit task reported =>
    obtain ⟨hHeld, h⟩ := Option.ite_none_right_eq_some.mp h
    obtain ⟨_, _, hEq⟩ := effect_of_map h
    exact ⟨hHeld, hEq.symm⟩
  | getPendingCount endpoint =>
    obtain ⟨r', -, hEq⟩ := effect_of_map h
    cases r' with
    | ok n => exact .inr ⟨n, hEq.symm⟩
    | error e => exact .inl hEq.symm
  | sendRawTransaction endpoint tx =>
    obtain ⟨_, _, hEq⟩ := effect_of_map h
    exact ⟨_, hEq.symm⟩
  | _ =>
    obtain ⟨_, _, hEq⟩ := effect_of_map h
    exact hEq.symm

theorem value_of_answer {β : Type} {value : ClientChoice → Option β} {b : β}
    (h : c.answer value = some (.ok b)) : value c = some b := by
  cases c with
  | error e => cases h
  | _ =>
    obtain ⟨b', hb', hEq⟩ := Option.map_eq_some_iff.mp h
    obtain rfl := Except.ok.inj hEq
    exact hb'

theorem exec_getBlockNumber {endpoint head : Nat}
    (h : s.exec (.getBlockNumber endpoint) c = some (.ok head, s')) :
    c = .number head ∧ s' = s := by
  obtain ⟨r, hAnswer, hEq⟩ := Option.map_eq_some_iff.mp h
  obtain ⟨rfl, rfl⟩ := Prod.mk.inj hEq
  refine ⟨?_, rfl⟩
  have hValue := value_of_answer hAnswer
  cases c with
  | number n =>
    obtain ⟨-, hn⟩ := Option.ite_none_right_eq_some.mp hValue
    rw [Option.some.inj hn]
  | _ => cases hValue

theorem exec_getTransactionReceipt {endpoint : Nat} {hash : TxHash} {receipt : Option Receipt}
    (h : s.exec (.getTransactionReceipt endpoint hash) c = some (.ok receipt, s')) :
    c = .receipt receipt ∧ s' = s := by
  obtain ⟨r, hAnswer, hEq⟩ := Option.map_eq_some_iff.mp h
  obtain ⟨rfl, rfl⟩ := Prod.mk.inj hEq
  refine ⟨?_, rfl⟩
  have hValue := value_of_answer hAnswer
  cases c with
  | receipt r =>
    obtain ⟨-, hr⟩ := Option.ite_none_right_eq_some.mp hValue
    rw [Option.some.inj hr]
  | _ => cases hValue

theorem exec_getGasPrices {endpoint : Nat} {for' : GasUse} {prices : Nat × Nat}
    (h : s.exec (.getGasPrices endpoint for') c = some (.ok prices, s')) :
    c = .prices prices.1 prices.2 ∧ s' = s := by
  obtain ⟨r, hAnswer, hEq⟩ := Option.map_eq_some_iff.mp h
  obtain ⟨rfl, rfl⟩ := Prod.mk.inj hEq
  refine ⟨?_, rfl⟩
  have hValue := value_of_answer hAnswer
  cases c with
  | prices baseFee priorityFee =>
    obtain rfl := Option.some.inj hValue
    rfl
  | _ => cases hValue

theorem exec_getPendingCount {endpoint : Nat} {r : Except TransportError Nat}
    (h : s.exec (.getPendingCount endpoint) c = some (r, s')) :
    (∃ n, r = .ok n ∧ c = .number n ∧ n ≤ maxU64 ∧
      s' = { s with pendingCounts := s.pendingCounts ++ [n] }) ∨
    ∃ e, r = .error e ∧ s' = s := by
  obtain ⟨r', hAnswer, hEq⟩ := Option.map_eq_some_iff.mp h
  obtain ⟨rfl, rfl⟩ := Prod.mk.inj hEq
  cases r' with
  | error e => exact .inr ⟨e, rfl, rfl⟩
  | ok n =>
    have hValue := value_of_answer hAnswer
    cases c with
    | number n' =>
      obtain ⟨hLe, hn⟩ := Option.ite_none_right_eq_some.mp hValue
      obtain rfl := Option.some.inj hn
      exact .inl ⟨n', rfl, rfl, hLe, rfl⟩
    | _ => cases hValue

theorem exec_loadNonce {n : Nat} (h : s.exec .loadNonce c = some (n, s')) :
    n = s.nonce ∧ s' = s := by
  obtain ⟨_, -, hEq⟩ := Option.map_eq_some_iff.mp h
  obtain ⟨rfl, rfl⟩ := Prod.mk.inj hEq
  exact ⟨rfl, rfl⟩

theorem exec_loadIndex {n : Nat} (h : s.exec .loadIndex c = some (n, s')) :
    n = s.currentIndex ∧ s' = s := by
  obtain ⟨_, -, hEq⟩ := Option.map_eq_some_iff.mp h
  obtain ⟨rfl, rfl⟩ := Prod.mk.inj hEq
  exact ⟨rfl, rfl⟩

theorem exec_sendRawTransaction {endpoint : Nat} {tx : SignedTx} {r : Except TransportError Unit}
    (h : s.exec (.sendRawTransaction endpoint tx) c = some (r, s')) :
    s' = { s with
      handed := s.handed ++ [tx]
      accepted := s.accepted ++ if accepts r then [tx] else [] } := by
  obtain ⟨r', -, hEq⟩ := Option.map_eq_some_iff.mp h
  obtain ⟨rfl, rfl⟩ := Prod.mk.inj hEq
  rfl

theorem exec_blockBounds {bounds : Nat × Nat} (h : s.exec .blockBounds c = some (bounds, s')) :
    bounds = s.seenBlock.bounds s.now ∧ s' = s := by
  obtain ⟨_, -, hEq⟩ := Option.map_eq_some_iff.mp h
  obtain ⟨rfl, rfl⟩ := Prod.mk.inj hEq
  exact ⟨rfl, rfl⟩

end AlloyClient

end Dipper
